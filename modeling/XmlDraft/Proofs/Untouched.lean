import XmlDraft.Proofs.Ending

/-!
# What a failure leaves alone

A task changes files only by its last act, which writes what is done already; before it there are at
most new folders around the file.  Main statement: a task that fails leaves the file that it was to
write as it was, and one that does not fail has written what the builder made from the files as they
were.
-/

namespace XmlDraft

namespace Storage

variable {s s' s'' : Storage} {p : FilePath}

/-! ### New folders -/

/-- The folder in which a path begins. -/
def start (s : Storage) (p : FilePath) : List String :=
  if p.slashes = 0 then s.here else []

/-- Nothing has changed but that there may be new folders. -/
structure Grows (s s' : Storage) : Prop where
  here : s'.here = s.here
  entry : ∀ place, s'.entry? place = s.entry? place
    ∨ (s.entry? place = none ∧ s'.entry? place = some .folder)

theorem Grows.refl (s : Storage) :
  Grows s s
  := ⟨rfl, fun _ => .inl rfl⟩

theorem Grows.start_eq (h : Grows s s') (q : FilePath) :
  s'.start q = s.start q
  := by
  rw [start, start, h.here]

theorem Grows.trans (h : Grows s s') (h' : Grows s' s'') :
  Grows s s''
  := by
  refine ⟨h'.here.trans h.here, fun place => ?_⟩
  rcases h'.entry place with hsame' | ⟨hnone', hfolder'⟩
  · rw [hsame']
    exact h.entry place
  · rcases h.entry place with hsame | ⟨-, hfolder⟩
    · exact .inr ⟨hsame.symm.trans hnone', hfolder'⟩
    · rw [hfolder] at hnone'
      cases hnone'

/-- What stood at a place still stands there. -/
theorem Grows.entry_some (h : Grows s s') {place : List String} {e : Stored}
    (he : s.entry? place = some e) :
  s'.entry? place = some e
  := by
  rcases h.entry place with hsame | ⟨hnone, -⟩
  · rw [hsame, he]
  · rw [he] at hnone
    cases hnone

/-- A file stood where it stands. -/
theorem Grows.entry_file (h : Grows s s') {place : List String} {octets : List UInt8}
    (hfile : s'.entry? place = some (.file octets)) :
  s.entry? place = some (.file octets)
  := by
  rcases h.entry place with hsame | ⟨-, hfolder⟩
  · rw [← hsame, hfile]
  · rw [hfile] at hfolder
    cases hfolder

/-- Names lead where they led. -/
theorem Grows.walk_ok (h : Grows s s') {folder target names : List String}
    (hwalk : s.walk folder names = .ok target) :
  s'.walk folder names = .ok target
  := by
  induction names generalizing folder with
  | nil => exact hwalk
  | cons name names ih =>
      unfold walk at hwalk ⊢
      split at hwalk
      · cases hwalk
      · cases hwalk
      · rename_i hfolder
        rw [h.entry_some hfolder]
        dsimp only at hwalk ⊢
        split_ifs at hwalk ⊢
        · exact ih hwalk
        · exact ih hwalk

theorem locate_ok {place : List String} :
  s.locate p = .ok place
    ↔ p.hasNull = false ∧ p.text.utf8ByteSize ≤ longestPath
      ∧ s.walk (s.start p) p.names = .ok place
  := by
  unfold locate Storage.place start
  cases p.hasNull with
  | true => simp
  | false =>
      by_cases hlong : longestPath < p.text.utf8ByteSize
      · simp [hlong, Except.mapError, Nat.not_le.mpr hlong]
      · cases s.walk (if p.slashes = 0 then s.here else []) p.names <;>
          simp [hlong, Except.mapError, Nat.not_lt.mp hlong]

/-- A path leads where it led. -/
theorem Grows.locate_ok (h : Grows s s') {q : FilePath} {place : List String}
    (hlocate : s.locate q = .ok place) :
  s'.locate q = .ok place
  := by
  obtain ⟨hnull, hlength, hwalk⟩ := Storage.locate_ok.mp hlocate
  exact Storage.locate_ok.mpr ⟨hnull, hlength, h.start_eq q ▸ h.walk_ok hwalk⟩

theorem read_ok {octets : List UInt8} :
  s.read p = .ok octets ↔ ∃ place, s.locate p = .ok place ∧ s.entry? place = some (.file octets)
  := by
  unfold read
  cases s.locate p with
  | error f => simp [bind, Except.bind]
  | ok place =>
      simp only [bind, Except.bind]
      split <;> simp_all

/-- Files are read as before. -/
theorem Grows.read_ok (h : Grows s s') {q : FilePath} {octets : List UInt8}
    (hread : s.read q = .ok octets) :
  s'.read q = .ok octets
  := by
  obtain ⟨place, hlocate, hfile⟩ := Storage.read_ok.mp hread
  exact Storage.read_ok.mpr ⟨place, h.locate_ok hlocate, h.entry_some hfile⟩

/-! ### Making folders -/

theorem makeFolder_ok (h : s.makeFolder p = .ok s') :
  ∃ place, s.locate p = .ok place ∧ s.entry? place = none ∧ s' = s.put place .folder
  := by
  obtain ⟨place, hlocate, h⟩ := Reading.bind_ok h
  split at h
  · cases h
  · rename_i hnone
    cases h
    exact ⟨place, hlocate, hnone, rfl⟩

theorem makeFolder_grows (h : s.makeFolder p = .ok s') :
  Grows s s'
  := by
  obtain ⟨place, -, hnone, rfl⟩ := makeFolder_ok h
  have hplace : place ≠ [] := by
    rintro rfl
    cases hnone
  refine ⟨rfl, fun other => ?_⟩
  by_cases hother : other = place
  · rw [hother]
    exact .inr ⟨hnone, entry?_put_self s hplace .folder⟩
  · exact .inl (entry?_put_ne s hother .folder)

/-- A folder that was there already changes how making it ends, and nothing else. -/
theorem accept_fst (s : Storage) (p : FilePath) (f : StorageFault) :
  (if f ≠ .nullCharacter && s.isFolder p then (s, Except.ok ()) else (s, .error f)).1 = s
  := by
  split_ifs <;> rfl

theorem makeFoldersWithin_grows (s : Storage) (p : FilePath) (fuel : Nat) :
  Grows s (s.makeFoldersWithin p fuel).1
  := by
  induction fuel generalizing p with
  | zero => exact .refl s
  | succ fuel ih =>
      unfold makeFoldersWithin
      dsimp only
      split
      · exact makeFolder_grows ‹_›
      · split_ifs
        · exact .refl s
        · have hparent := ih p.parent
          split
          · rename_i heq
            rw [heq] at hparent
            exact hparent
          · rename_i heq
            rw [heq] at hparent
            split
            · exact hparent.trans (makeFolder_grows ‹_›)
            · rw [accept_fst]
              exact hparent
      · rw [accept_fst]
        exact .refl s

/-- Making folders changes nothing else. -/
theorem makeFolders_grows (s : Storage) (p : FilePath) :
  Grows s (s.makeFolders p).1
  := makeFoldersWithin_grows s p _

/-- Where the folder is there already nothing is made. -/
theorem makeFolders_self (h : s.isFolder p) :
  s.makeFolders p = (s, .ok ())
  := by
  unfold isFolder at h
  cases hlocate : s.locate p with
  | error f => rw [hlocate] at h; cases h
  | ok place =>
      have hfolder : s.entry? place = some .folder := by simpa [hlocate] using h
      have hpresent : s.makeFolder p = .error (.path .present p) := by
        rw [makeFolder, hlocate]
        simp only [bind, Except.bind, hfolder]
      have hthere : s.isFolder p = true := by
        unfold isFolder
        simp [hlocate, hfolder]
      unfold makeFolders makeFoldersWithin
      simp [hpresent, hthere]

/-! ### The way of a path -/

variable {folder target front rest names : List String}

theorem walk_append (s : Storage) (folder front rest : List String) :
  s.walk folder (front ++ rest) = (s.walk folder front).bind fun place => s.walk place rest
  := by
  induction front generalizing folder with
  | nil => rfl
  | cons name front ih =>
      rw [List.cons_append, walk, walk]
      split
      · rfl
      · rfl
      · split_ifs
        · exact ih _
        · rfl
        · exact ih _

/-- Names that go back to no folder lead from one to the next. -/
theorem walk_forward (hback : ".." ∉ names) (h : s.walk folder names = .ok target) :
  target = folder ++ names
  := by
  induction names generalizing folder with
  | nil =>
      cases h
      rw [List.append_nil]
  | cons name names ih =>
      rw [List.mem_cons, not_or] at hback
      unfold walk at h
      split at h
      · cases h
      · cases h
      · rw [if_neg (Ne.symm hback.1)] at h
        split_ifs at h
        rw [ih hback.2 h, List.append_assoc, List.singleton_append]

/-- Where a folder is missing on the way, the path leads nowhere. -/
theorem walk_of_absent {q : FilePath} (h : s.makeFolder p = .error (.path .absent q)) :
  s.walk (s.start p) p.names ≠ .ok target
  := by
  intro hwalk
  unfold makeFolder locate Storage.place at h
  rw [← start, hwalk] at h
  split_ifs at h
  · cases h
  · cases h
  · cases hentry : s.entry? target with
    | none => simp [hentry, Except.mapError, bind, Except.bind] at h
    | some e => simp [hentry, Except.mapError, bind, Except.bind] at h

/-- The front of a path leads to a folder, and the rest goes on from it without going back. -/
structure Ends (s : Storage) (p : FilePath) (folder rest : List String) : Prop where
  exists_front : ∃ front, p.names = front ++ rest ∧ s.walk (s.start p) front = .ok folder
  forward : ".." ∉ rest
  found : s.entry? folder = some .folder

/-- The place of a path that ends so, if it leads to one. -/
theorem Ends.walk_eq (h : s.Ends p folder rest) (hgrows : Grows s s')
    (hwalk : s'.walk (s'.start p) p.names = .ok target) :
  target = folder ++ rest
  := by
  obtain ⟨front, hnames, hfront⟩ := h.exists_front
  rw [hnames, hgrows.start_eq, walk_append, hgrows.walk_ok hfront] at hwalk
  exact walk_forward h.forward hwalk

/-- The folder around a path ends so too. -/
theorem Ends.parent {name : String} (h : s.Ends p folder (rest ++ [name])) :
  s.Ends p.parent folder rest
  := by
  obtain ⟨front, hnames, hfront⟩ := h.exists_front
  refine ⟨⟨front, ?_, hfront⟩, fun hmem => h.forward (List.mem_append_left _ hmem), h.found⟩
  rw [FilePath.parent, hnames, ← List.append_assoc, List.dropLast_concat]

/-- Where a folder is missing on the way of a path that ends so, something is left of it behind the
folder. -/
theorem Ends.exists_concat {q : FilePath} (h : s.Ends p folder rest)
    (hmissing : s.makeFolder p = .error (.path .absent q)) :
  ∃ inner name, rest = inner ++ [name]
  := by
  rcases List.eq_nil_or_concat rest with rfl | hrest
  · obtain ⟨front, hnames, hfront⟩ := h.exists_front
    rw [List.append_nil] at hnames
    exact absurd (hnames ▸ hfront) (walk_of_absent hmissing)
  · simpa using hrest

/-- A folder that is made for such a path, in what the storage has grown to, is the one to which the
path leads. -/
theorem Ends.makeFolder {grown made : Storage} {place : List String} (h : s.Ends p folder rest)
    (hgrows : Grows s grown) (hmake : grown.makeFolder p = .ok made)
    (hnone : grown.entry? place = none) (hsome : (made.entry? place).isSome) :
  place = folder ++ rest
  := by
  obtain ⟨new, hlocate, -, rfl⟩ := makeFolder_ok hmake
  by_cases hplace : place = new
  · rw [hplace, h.walk_eq hgrows (Storage.locate_ok.mp hlocate).2.2]
  · rw [entry?_put_ne _ hplace, hnone] at hsome
    cases hsome

/-- New folders are on the way from the folder to which the front of the path led. -/
theorem Ends.makeFoldersWithin {fuel : Nat} (h : s.Ends p folder rest) {place : List String}
    (hnone : s.entry? place = none)
    (hsome : (Storage.entry? (s.makeFoldersWithin p fuel).1 place).isSome) :
  place <+: folder ++ rest
  := by
  induction fuel generalizing p rest with
  | zero =>
      rw [Storage.makeFoldersWithin, hnone] at hsome
      cases hsome
  | succ fuel ih =>
      have hself (hsome : (s.entry? place).isSome) : place <+: folder ++ rest := by
        rw [hnone] at hsome
        cases hsome
      unfold Storage.makeFoldersWithin at hsome
      dsimp only at hsome
      split at hsome
      · exact h.makeFolder (.refl s) ‹_› hnone hsome ▸ List.prefix_rfl
      · rename_i hmissing
        split_ifs at hsome
        · exact hself hsome
        · obtain ⟨inner, name, rfl⟩ := h.exists_concat hmissing
          have hinner
              (hsome : (Storage.entry? (s.makeFoldersWithin p.parent fuel).1 place).isSome) :
              place <+: folder ++ (inner ++ [name]) := by
            rw [← List.append_assoc]
            exact (ih h.parent hsome).trans (List.prefix_append _ _)
          have hgrows := makeFoldersWithin_grows s p.parent fuel
          split at hsome
          · rename_i heq
            rw [heq] at hinner
            exact hinner hsome
          · rename_i grown _ heq
            rw [heq] at hinner hgrows
            split at hsome
            · cases hplace : grown.entry? place with
              | none => exact h.makeFolder hgrows ‹_› hplace hsome ▸ List.prefix_rfl
              | some e => exact hinner (by rw [hplace]; rfl)
            · rw [accept_fst] at hsome
              exact hinner hsome
      · rw [accept_fst] at hsome
        exact hself hsome

/-! ### Paths that lead nowhere -/

/-- Around everything there are folders, and so there are around the one in which paths begin. -/
structure IsTree (s : Storage) : Prop where
  here : s.entry? s.here = some .folder
  around : ∀ place, (s.entry? place).isSome → s.entry? place.dropLast = some .folder

theorem isTree_of_entries (here : s.entry? s.here = some .folder)
    (around : ∀ e ∈ s.entries, s.entry? e.1.dropLast = some .folder) :
  s.IsTree
  := by
  refine ⟨here, fun place h => ?_⟩
  unfold entry? at h
  split_ifs at h with hplace
  · rw [hplace]
    rfl
  · obtain ⟨e, he⟩ := Option.isSome_iff_exists.mp h
    obtain ⟨before, after, hentries, -⟩ := List.lookup_eq_some_iff.mp he
    exact around (place, e) (by simp [hentries])

theorem IsTree.start (h : s.IsTree) (p : FilePath) :
  s.entry? (s.start p) = some .folder
  := by
  unfold Storage.start
  split_ifs
  · exact h.here
  · rfl

theorem IsTree.entry_before (h : s.IsTree) (hne : names ≠ [])
    (hentry : (s.entry? (folder ++ names)).isSome) :
  s.entry? folder = some .folder
  := by
  induction names using List.reverseRecOn with
  | nil => exact absurd rfl hne
  | append_singleton names name ih =>
      have haround := h.around _ hentry
      rw [← List.append_assoc, List.dropLast_concat] at haround
      by_cases hnames : names = []
      · rwa [hnames, List.append_nil] at haround
      · exact ih hnames (by rw [haround]; rfl)

/-- Names that are no longer than names may be. -/
theorem walk_short (hback : ".." ∉ names) (h : s.walk folder names = .ok target) :
  ∀ name ∈ names, name.utf8ByteSize ≤ longestName
  := by
  induction names generalizing folder with
  | nil => simp
  | cons name names ih =>
      rw [List.mem_cons, not_or] at hback
      unfold walk at h
      split at h
      · cases h
      · cases h
      · rw [if_neg (Ne.symm hback.1)] at h
        split_ifs at h with hlong
        exact List.forall_mem_cons.mpr ⟨Nat.not_lt.mp hlong, ih hback.2 h⟩

/-- Names lead to whatever is there. -/
theorem IsTree.walk_ok (h : s.IsTree) (hback : ".." ∉ names)
    (hshort : ∀ name ∈ names, name.utf8ByteSize ≤ longestName)
    (hentry : (s.entry? (folder ++ names)).isSome) :
  s.walk folder names = .ok (folder ++ names)
  := by
  induction names generalizing folder with
  | nil =>
      rw [List.append_nil]
      rfl
  | cons name names ih =>
      rw [List.mem_cons, not_or] at hback
      obtain ⟨hname, hnames⟩ := List.forall_mem_cons.mp hshort
      have hnext : s.walk (folder ++ [name]) names = .ok (folder ++ [name] ++ names) :=
        ih hback.2 hnames (by simpa using hentry)
      rw [walk, h.entry_before (List.cons_ne_nil _ _) hentry]
      dsimp only
      rw [if_neg (Ne.symm hback.1), if_neg (Nat.not_lt.mpr hname), hnext, List.append_assoc,
        List.singleton_append]

theorem holds_true :
  s.holds p = .ok true ↔ ∃ place, s.locate p = .ok place ∧ (s.entry? place).isSome
  := by
  unfold holds
  cases s.locate p with
  | error f => split <;> simp_all
  | ok place => simp

/-- A path goes back only from folders that are there: what it names before it goes back leads to
a folder. -/
def GoesBackFromFolders (s : Storage) (p : FilePath) : Prop :=
  ∀ n < p.names.length, p.names[n]? = some ".." →
    s.isFolder { p with names := p.names.take n }

instance (s : Storage) (p : FilePath) : Decidable (s.GoesBackFromFolders p) :=
  inferInstanceAs (Decidable (∀ n < p.names.length, _))

theorem isFolder_iff :
  s.isFolder p ↔ ∃ place, s.locate p = .ok place ∧ s.entry? place = some .folder
  := by
  unfold isFolder
  cases s.locate p <;> simp

/-- A path that goes back only from folders that are there ends behind the last of them. -/
theorem IsTree.exists_ends (h : s.IsTree) (hback : s.GoesBackFromFolders p) :
  ∃ folder rest, s.Ends p folder rest
  := by
  by_cases hmem : ".." ∈ p.names
  · obtain ⟨back, front, hreverse, hforward⟩ :=
      List.eq_append_cons_of_mem (List.mem_reverse.mpr hmem)
    have hnames : p.names = front.reverse ++ ".." :: back.reverse := by
      rw [← List.reverse_reverse p.names, hreverse, List.reverse_append, List.reverse_cons,
        List.append_assoc, List.singleton_append]
    obtain ⟨folder, hlocate, hfolder⟩ := isFolder_iff.mp
      (hback front.length (by simp [hnames]) (by simp [hnames]))
    have hwalk : s.walk (s.start p) front.reverse = .ok folder := by
      have hwalk := (Storage.locate_ok.mp hlocate).2.2
      rwa [hnames, List.take_left' List.length_reverse] at hwalk
    refine ⟨folder.dropLast, back.reverse, ⟨front.reverse ++ [".."], ?_, ?_⟩, ?_, ?_⟩
    · rw [hnames, List.append_assoc, List.singleton_append]
    · rw [walk_append, hwalk]
      simp [Except.bind, walk, hfolder]
    · rwa [List.mem_reverse]
    · exact h.around folder (by rw [hfolder]; rfl)
  · exact ⟨s.start p, p.names, ⟨[], rfl, rfl⟩, hmem, h.start p⟩

/-- Folders that are made around a path do not make it lead to something. -/
theorem IsTree.makeFolders_holds (hs : s.IsTree) (hback : s.GoesBackFromFolders p)
    (hholds : (s.makeFolders p.parent).1.holds p = .ok true) :
  s.holds p = .ok true
  := by
  obtain ⟨folder, rest, hends⟩ := hs.exists_ends hback
  have hgrows := makeFolders_grows s p.parent
  obtain ⟨place, hlocate, hentry⟩ := Storage.holds_true.mp hholds
  obtain ⟨hnull, hlength, hwalk⟩ := Storage.locate_ok.mp hlocate
  obtain rfl := hends.walk_eq hgrows hwalk
  obtain ⟨front, hnames, hfront⟩ := hends.exists_front
  have hbefore : (s.entry? (folder ++ rest)).isSome := by
    by_contra hnone
    rw [Option.not_isSome_iff_eq_none] at hnone
    rcases List.eq_nil_or_concat rest with rfl | ⟨inner, name, hrest⟩
    · rw [List.append_nil, hends.found] at hnone
      cases hnone
    · -- a new folder would lie on the way to the folder around the path
      rw [List.concat_eq_append] at hrest
      subst hrest
      have hle := (hends.parent.makeFoldersWithin hnone hentry).length_le
      simp only [List.length_append, List.length_singleton] at hle
      omega
  have hshort : ∀ name ∈ rest, name.utf8ByteSize ≤ longestName := by
    rw [hnames, hgrows.start_eq, walk_append, hgrows.walk_ok hfront] at hwalk
    exact walk_short hends.forward hwalk
  refine Storage.holds_true.mpr
    ⟨_, Storage.locate_ok.mpr ⟨hnull, hlength, ?_⟩, hbefore⟩
  rw [hnames, walk_append, hfront]
  exact hs.walk_ok hends.forward hshort hbefore

/-- What a failure to write a file leaves alone. -/
structure LeavesAlone (p : FilePath) (before after : Storage) : Prop where
  /-- Nothing has changed but that there may be new folders. -/
  entry : ∀ place, after.entry? place = before.entry? place
    ∨ (before.entry? place = none ∧ after.entry? place = some .folder)
  /-- If the folder of the file is there nothing has changed at all. -/
  settled : before.isFolder p.parent → after = before
  /-- A file to which the path led is as it was. -/
  kept : ∀ octets, before.read p = .ok octets → after.read p = .ok octets
  /-- A file to which the path leads stood there before with the same octets. -/
  found : ∀ octets, after.read p = .ok octets →
    ∃ place, after.locate p = .ok place ∧ before.entry? place = some (.file octets)

/-- What is left alone when folders are made around a file, if they are not there. -/
theorem Grows.leavesAlone (h : Grows s s') (hself : s.isFolder p.parent → s' = s) :
  LeavesAlone p s s'
  where
  entry := h.entry
  settled := hself
  kept := fun _ => h.read_ok
  found := fun _ hread => by
    obtain ⟨place, hlocate, hfile⟩ := Storage.read_ok.mp hread
    exact ⟨place, hlocate, h.entry_file hfile⟩

end Storage

namespace Command

open Storage

variable {w : Surroundings} {o : Options} {t : Task} {b : Builder} {name : String}

/-- A builder whose octets can be written has an encoding afterwards. -/
theorem encoding_of_renderOctets {b' : Builder} {indented : Bool} {octets : List UInt8}
    (h : b.renderOctets indented = (b', .ok octets)) :
  ∃ encoding, b'.encoding = .ok encoding
  := by
  have hdraft : b'.draft = b.draft := by
    have hkept := renderOctets_draft b indented
    rwa [h] at hkept
  unfold Builder.renderOctets at h
  split at h
  · cases h
  · rename_i encoding hencoding
    exact ⟨encoding, by rw [Builder.encoding, hdraft, ← Builder.encoding, hencoding]⟩

/-- A builder that cannot be delivered has written nothing; folders are made before. -/
theorem deliver_failed {s : Storage} {f : Failure} (ho : o.output = some name)
    (h : (deliver s o b).outcome = .error f) :
  (deliver s o b).storage = (s.makeFolders (FilePath.ofText name).parent).1
  := by
  unfold deliver at h ⊢
  rw [ho] at h ⊢
  dsimp only at h ⊢
  cases hfolders : s.makeFolders (FilePath.ofText name).parent with
  | mk s' made =>
      rw [hfolders] at h
      cases made with
      | error g => rfl
      | ok _ =>
          dsimp only at h ⊢
          cases hoctets : b.renderOctets o.indent with
          | mk b' rendered =>
              rw [hoctets] at h
              cases rendered with
              | error g => rfl
              | ok octets =>
                  dsimp only at h ⊢
                  cases hwrite : Storage.write s' (.ofText name) octets with
                  | error g => rfl
                  | ok s'' =>
                      -- the encoding is known, for the octets are written in it
                      obtain ⟨encoding, hencoding⟩ := encoding_of_renderOctets hoctets
                      rw [hwrite, hencoding] at h
                      cases h

theorem Report.ofFailure_storage (s : Storage) (t : Task) (threshold : Option Log.Level)
    (records : List Log.Record) (f : Failure) :
  (Report.ofFailure s t threshold records f).storage = s
  := by
  unfold Report.ofFailure
  dsimp only
  split
  · rfl
  · split_ifs <;> rfl

/-- The endings of a failure. -/
def Ending.IsFailure (e : Ending) : Prop :=
  e = .status 1 ∨ e = .status 130 ∨ ∃ f, e = .failed f

theorem Report.ofFailure_isFailure (s : Storage) (t : Task) (threshold : Option Log.Level)
    (records : List Log.Record) (f : Failure) :
  (Report.ofFailure s t threshold records f).ending.IsFailure
  := by
  unfold Report.ofFailure
  dsimp only
  split
  · exact .inr (.inl rfl)
  · split_ifs
    · exact .inl rfl
    · exact .inr (.inr ⟨_, rfl⟩)

/-- A task that does not end with status zero has failed, and has at most made folders around the
file that it was to write. -/
theorem Task.run_failed (ho : o.output = some name) (h : (t.run w o).ending ≠ .status 0) :
  (t.run w o).ending.IsFailure ∧ ((t.run w o).storage = w.storage
    ∨ (t.run w o).storage = (w.storage.makeFolders (FilePath.ofText name).parent).1)
  := by
  unfold run at h ⊢
  split at h
  · exact ⟨Report.ofFailure_isFailure _ _ _ _ _, .inl (Report.ofFailure_storage _ _ _ _ _)⟩
  · exact ⟨.inl rfl, .inl rfl⟩
  · dsimp only at h ⊢
    split at h
    · exact ⟨Report.ofFailure_isFailure _ _ _ _ _, .inl (Report.ofFailure_storage _ _ _ _ _)⟩
    · rename_i b hb
      split at h
      · rename_i f hdeliver
        refine ⟨Report.ofFailure_isFailure _ _ _ _ _, .inr ?_⟩
        rw [Report.ofFailure_storage, deliver_failed ho hdeliver]
      · rename_i product hproduct
        cases product <;> exact absurd rfl h

/-- A builder that was prepared was made from settings. -/
theorem Task.prepare_ok (h : (t.prepare w o).outcome = .ok b) :
  ∃ settings, settingsFor w.storage o = .ok settings ∧ (t.builder w settings).2 = .ok b
  := by
  unfold prepare at h
  cases hsettings : settingsFor w.storage o with
  | error f => simp [hsettings, bind, Except.bind] at h
  | ok settings =>
      cases hlevel : thresholdOf o settings with
      | error f => simp [hsettings, hlevel, bind, Except.bind] at h
      | ok level => exact ⟨settings, rfl, by simpa [hsettings, hlevel, bind, Except.bind] using h⟩

end Command

open Command in
/-- A command line that writes a file and does not end with status zero fails, and leaves the file
alone: no file has changed, none is new and none is gone, and where the path led to nothing it leads
to nothing, unless it goes back from a folder that was not there.  One that ends with status zero
has written the octets of the builder that was made from the files as they were, the one that is
written among them. -/
theorem failure_leaves_file_alone {w : Surroundings} {words : List String} {t : Task} {o : Options}
    {name : String} (htree : w.storage.IsTree) (hwords : Request.ofWords words = .task t o)
    (hname : o.output = some name) :
  ((run w words).ending ≠ .status 0 →
      (run w words).ending.IsFailure
        ∧ Storage.LeavesAlone (.ofText name) w.storage (run w words).storage
        ∧ (w.storage.GoesBackFromFolders (.ofText name) →
          w.storage.holds (.ofText name) ≠ .ok true →
          (run w words).storage.holds (.ofText name) ≠ .ok true))
    ∧ ((run w words).ending = .status 0 →
      ∃ settings b octets, settingsFor w.storage o = .ok settings
        ∧ (t.builder w settings).2 = .ok b ∧ (b.renderOctets o.indent).2 = .ok octets
        ∧ (run w words).storage.read (.ofText name) = .ok octets)
  := by
  have hrun : run w words = t.run w o := by rw [run, hwords, Request.run]
  rw [hrun]
  refine ⟨fun hfailed => ?_, fun hzero => ?_⟩
  · obtain ⟨hending, hstorage⟩ := Task.run_failed hname hfailed
    refine ⟨hending, ?_⟩
    rcases hstorage with hstorage | hstorage
    · rw [hstorage]
      exact ⟨(Storage.Grows.refl _).leavesAlone fun _ => rfl, fun _ hnone => hnone⟩
    · rw [hstorage]
      refine ⟨(Storage.makeFolders_grows _ _).leavesAlone fun hfolder => ?_, ?_⟩
      · rw [Storage.makeFolders_self hfolder]
      · exact fun hback hnone hholds => hnone (htree.makeFolders_holds hback hholds)
  · obtain ⟨b, product, hprepare, hdeliver, hstorage⟩ := Task.run_zero hzero
    obtain ⟨settings, hsettings, hbuilder⟩ := Task.prepare_ok hprepare
    obtain ⟨s, octets, hoctets, hwrite⟩ := deliver_written hname hdeliver
    refine ⟨settings, b, octets, hsettings, hbuilder, hoctets, ?_⟩
    rw [hstorage]
    exact Storage.read_write hwrite

open Command in
/-- A file that stays as it is when a declaration cannot be written, and is read and written by
the same command line otherwise; and a path that goes back from a folder that is there, and leads
nowhere after a failure in spite of the folder that is made on its way. -/
theorem failure_leaves_file_alone_of_number :
  let draft : Value := .function [.required] [.call "Declaration" [.int 1] [], .call "a" [] []]
  let octets : List UInt8 := "<a></a>".toList.map fun c => c.toNat.toUInt8
  let storage : Storage := ⟨["home"], [(["home"], .folder), (["home", "a.xml"], .file octets)]⟩
  let w : Surroundings := ⟨storage, ⟨[("m", [("f", draft)])]⟩⟩
  let failing := ["render", "m:f", "--output", "a.xml"]
  let making := ["render", "m:f", "--output", "../home/new/b.xml"]
  let formatting := ["format", "a.xml", "--output", "a.xml"]
  ((run w failing).ending.IsFailure
      ∧ (run w failing).storage.read (.ofText "a.xml") = .ok octets)
    ∧ ((run w making).storage.entry? ["home", "new"] = some .folder
      ∧ (run w making).storage.holds (.ofText "../home/new/b.xml") ≠ .ok true)
    ∧ ∃ b octets', ((Task.format "a.xml").builder w {}).2 = .ok b
      ∧ (b.renderOctets false).2 = .ok octets'
      ∧ (run w formatting).storage.read (.ofText "a.xml") = .ok octets'
  := by
  intro draft octets storage w failing making formatting
  have htree : w.storage.IsTree := Storage.isTree_of_entries rfl (by decide)
  have hfailing : Request.ofWords failing = .task (.render "m:f") { output := some "a.xml" } := by
    rfl
  have hmaking :
      Request.ofWords making = .task (.render "m:f") { output := some "../home/new/b.xml" } := by
    rfl
  have hformatting :
      Request.ofWords formatting = .task (.format "a.xml") { output := some "a.xml" } := by
    rfl
  have hread : w.storage.read (.ofText "a.xml") = .ok octets := rfl
  have hfails {words : List String} (hstatus : (run w words).ending.status? = none) :
      (run w words).ending ≠ .status 0 := by
    intro hzero
    rw [hzero] at hstatus
    cases hstatus
  have hzero : (run w formatting).ending = .status 0 := by rfl
  obtain ⟨hending, halone, -⟩ :=
    (failure_leaves_file_alone htree hfailing rfl).1 (hfails rfl)
  obtain ⟨-, -, hnowhere⟩ :=
    (failure_leaves_file_alone htree hmaking rfl).1 (hfails rfl)
  obtain ⟨settings, b, octets', hsettings, hb, hoctets, hwritten⟩ :=
    (failure_leaves_file_alone htree hformatting rfl).2 hzero
  cases hsettings
  refine ⟨⟨hending, halone.kept octets hread⟩, ⟨rfl, ?_⟩, b, octets', hb, hoctets,
    hwritten⟩
  exact hnowhere (by decide) (by decide)

open Command in
/-- A path that goes back from a folder that was not there leads to it after a failure. -/
theorem failure_makes_path_lead :
  let octets : List UInt8 := "<a/>".toList.map fun c => c.toNat.toUInt8
  let storage : Storage := ⟨["home"], [(["home"], .folder), (["home", "a.xml"], .file octets)]⟩
  let after := run ⟨storage, ⟨[]⟩⟩ ["format", "a.xml", "--output", "x/../x"]
  storage.holds (.ofText "x/../x") = .ok false
    ∧ after.ending.status? = some 1
    ∧ after.storage.holds (.ofText "x/../x") = .ok true
  := ⟨rfl, rfl, rfl⟩

end XmlDraft
