import AddressPlan.Files.Basic
import AddressPlan.Proofs.Except
import AddressPlan.Proofs.Files.Path

/-!
What stays when a tree of files grows. Where a path leads depends on the names in it and on the directories that are
there, so a path that has been followed to its end leads to the same place in every tree with the same directories. A
path that could not be followed may come to lead somewhere, but only through what was added on its way.
-/

namespace AddressPlan.Files

variable {fs fs' : Files} {l l' : Location} {e : Entry} {name path : String} {names : List String}

/-! ### Entries -/

theorem at?_of_ne_nil (hl : l ≠ []) : fs.at? l = (fs.entries.find? (·.1 == l)).map (·.2) := by
  rw [at?, if_neg]
  rw [List.isEmpty_iff]
  exact hl

theorem at?_put_self (hl : l ≠ []) : (fs.put l e).at? l = some e := by
  rw [at?_of_ne_nil hl, put, List.find?_append, List.find?_eq_none.mpr]
  · simp
  · intro x hx
    simpa using (List.mem_filter.mp hx).2

theorem find?_filter_ne (entries : List (Location × Entry)) (h : l' ≠ l) :
    (entries.filter (·.1 != l)).find? (·.1 == l') = entries.find? (·.1 == l') := by
  rw [List.find?_filter]
  congr 1
  funext x
  by_cases hx : x.1 = l'
  · simp [hx, h]
  · simp [hx]

theorem at?_drop_ne (h : l' ≠ l) : (fs.drop l).at? l' = fs.at? l' := by
  by_cases hl : l' = []
  · subst hl
    rfl
  · rw [at?_of_ne_nil hl, at?_of_ne_nil hl, drop, find?_filter_ne _ h]

theorem at?_put_ne (h : l' ≠ l) : (fs.put l e).at? l' = fs.at? l' := by
  by_cases hl : l' = []
  · subst hl
    rfl
  · rw [at?_of_ne_nil hl, at?_of_ne_nil hl, put, List.find?_append, find?_filter_ne _ h]
    have hne : (l == l') = false := by simpa using fun heq => h heq.symm
    simp [hne]

/-! ### Following names -/

/-- The locations that names lead through, the last of them where they lead. -/
def trail : Location → List String → List Location
  | _, [] => []
  | l, name :: names => step l name :: trail (step l name) names

/-- The locations that a path leads through. -/
def way (fs : Files) (path : String) : List Location :=
  trail (fs.start path) (Path.words path)

theorem trail_append : ∀ (names more : List String) (l : Location),
    trail l (names ++ more) = trail l names ++ trail (names.foldl step l) more
  | [], _, _ => rfl
  | name :: names, more, l => congrArg (step l name :: ·) (trail_append names more (step l name))

theorem foldl_mem_trail : ∀ {names : List String} (l : Location), names ≠ [] → names.foldl step l ∈ trail l names
  | [], _, h => absurd rfl h
  | [_], _, _ => List.mem_singleton_self _
  | name :: next :: names, l, _ => List.mem_cons_of_mem _ (foldl_mem_trail (step l name) (List.cons_ne_nil next names))

/-- How names are followed: a name that is not the last one has to lead to a directory. -/
inductive Walk (fs : Files) : Location → List String → Except FileFault Location → Prop
  | done {l : Location} : Walk fs l [] (.ok l)
  | idle {l : Location} {name : String} {names : List String} {r : Except FileFault Location} (hidle : name = "." ∨ name = "..")
      (hrest : Walk fs (step l name) names r) : Walk fs l (name :: names) r
  | long {l : Location} {name : String} {names : List String} (hname : ¬ (name = "." ∨ name = ".."))
      (hlong : maxName < name.utf8ByteSize) : Walk fs l (name :: names) (.error .nameTooLong)
  | last {l : Location} {name : String} (hname : ¬ (name = "." ∨ name = "..")) (hshort : name.utf8ByteSize ≤ maxName) :
      Walk fs l [name] (.ok (step l name))
  | missing {l : Location} {name : String} {names : List String} (hname : ¬ (name = "." ∨ name = ".."))
      (hshort : name.utf8ByteSize ≤ maxName) (hmore : names ≠ []) (hat : fs.at? (step l name) = none) :
      Walk fs l (name :: names) (.error .notFound)
  | blocked {l : Location} {name : String} {names : List String} {t : String} (hname : ¬ (name = "." ∨ name = ".."))
      (hshort : name.utf8ByteSize ≤ maxName) (hmore : names ≠ []) (hat : fs.at? (step l name) = some (.text t)) :
      Walk fs l (name :: names) (.error .notDirectory)
  | enter {l : Location} {name : String} {names : List String} {r : Except FileFault Location}
      (hname : ¬ (name = "." ∨ name = "..")) (hshort : name.utf8ByteSize ≤ maxName) (hmore : names ≠ [])
      (hat : fs.at? (step l name) = some .directory) (hrest : Walk fs (step l name) names r) : Walk fs l (name :: names) r

theorem walk_idle (hidle : name = "." ∨ name = "..") : fs.walk l (name :: names) = fs.walk (step l name) names := by
  rw [walk]
  rcases hidle with rfl | rfl <;> rfl

theorem walk_name (hname : ¬ (name = "." ∨ name = "..")) : fs.walk l (name :: names) =
    if maxName < name.utf8ByteSize then .error .nameTooLong
    else if names = [] then .ok (step l name)
    else match fs.at? (step l name) with
      | none => .error .notFound
      | some (.text _) => .error .notDirectory
      | some .directory => fs.walk (step l name) names := by
  obtain ⟨hdot, hup⟩ := not_or.mp hname
  have hstep : step l name = l ++ [name] := by rw [step, if_neg hdot, if_neg hup]
  rw [walk, if_neg hdot, if_neg hup, hstep]
  cases names with
  | nil => rfl
  | cons next names => rfl

theorem walk_spec (fs : Files) : ∀ (l : Location) (names : List String), Walk fs l names (fs.walk l names)
  | l, [] => .done
  | l, name :: names => by
    by_cases hname : name = "." ∨ name = ".."
    · rw [walk_idle hname]
      exact .idle hname (walk_spec fs _ names)
    rw [walk_name hname]
    split
    · rename_i hlong
      exact .long hname hlong
    rename_i hlong
    have hshort : name.utf8ByteSize ≤ maxName := Nat.le_of_not_lt hlong
    split
    · rename_i hlast
      subst hlast
      exact .last hname hshort
    rename_i hmore
    split
    · rename_i hat
      exact .missing hname hshort hmore hat
    · rename_i hat
      exact .blocked hname hshort hmore hat
    · rename_i hat
      exact .enter hname hshort hmore hat (walk_spec fs _ names)

theorem Walk.eq {r : Except FileFault Location} (h : Walk fs l names r) : fs.walk l names = r := by
  induction h with
  | done => rfl
  | idle hidle _ ih => rw [walk_idle hidle, ih]
  | long hname hlong => rw [walk_name hname, if_pos hlong]
  | last hname hshort => rw [walk_name hname, if_neg (Nat.not_lt.mpr hshort), if_pos rfl]
  | missing hname hshort hmore hat => rw [walk_name hname, if_neg (Nat.not_lt.mpr hshort), if_neg hmore, hat]
  | blocked hname hshort hmore hat => rw [walk_name hname, if_neg (Nat.not_lt.mpr hshort), if_neg hmore, hat]
  | enter hname hshort hmore hat _ ih => rw [walk_name hname, if_neg (Nat.not_lt.mpr hshort), if_neg hmore, hat, ih]

/-- Names that can be followed lead where they say. -/
theorem Walk.eq_foldl {r : Except FileFault Location} (h : Walk fs l names r) (hr : r = .ok l') : l' = names.foldl step l := by
  induction h with
  | done | last =>
    cases hr
    rfl
  | long | missing | blocked => cases hr
  | idle _ _ ih | enter _ _ _ _ _ ih => exact ih hr

/-- A path whose names are followed. -/
structure Followed (path : String) : Prop where
  zero : '\x00' ∉ path.toList
  nonempty : path ≠ ""
  short : path.utf8ByteSize ≤ maxPath

theorem Followed.locate_eq (h : Followed path) (fs : Files) :
    fs.locate path = fs.walk (fs.start path) (Path.names path) := by
  have hzero : path.toList.contains '\x00' ≠ true := by simpa using h.zero
  have hempty : path.isEmpty ≠ true := by simpa using h.nonempty
  rw [locate, if_neg hzero, if_neg hempty, if_neg (Nat.not_lt.mpr h.short)]

/-- A path is followed, or it is wrong as such. -/
theorem followed_or_error (path : String) :
    Followed path ∨ ∃ f, (∀ fs : Files, fs.locate path = .error f) ∧ (f = .notFound → path = "") := by
  by_cases hzero : path.toList.contains '\x00' = true
  · exact Or.inr ⟨.zeroInPath, fun fs => if_pos hzero, nofun⟩
  by_cases hempty : path.isEmpty = true
  · exact Or.inr ⟨.notFound, fun fs => (if_neg hzero).trans (if_pos hempty), fun _ => by simpa using hempty⟩
  by_cases hlong : maxPath < path.utf8ByteSize
  · exact Or.inr ⟨.nameTooLong, fun fs => (if_neg hzero).trans ((if_neg hempty).trans (if_pos hlong)), nofun⟩
  · exact Or.inl ⟨by simpa using hzero, by simpa using hempty, Nat.not_lt.mp hlong⟩

theorem followed_of_ok (h : fs.locate path = .ok l) : Followed path := by
  rcases followed_or_error path with hpath | ⟨f, hf, -⟩
  · exact hpath
  · rw [hf] at h
    cases h

theorem Followed.of_append {suffix : String} (h : Followed (path ++ suffix)) (hne : path ≠ "") : Followed path where
  zero hmem := h.zero (by
    rw [String.toList_append]
    exact List.mem_append_left _ hmem)
  nonempty := hne
  short := by
    have hshort := h.short
    rw [String.utf8ByteSize_append] at hshort
    exact Nat.le_trans (Nat.le_add_right _ _) hshort

theorem foldl_names (path : String) (l : Location) : (Path.names path).foldl step l = (Path.words path).foldl step l := by
  rw [Path.names]
  split
  · rw [List.foldl_append]
    rfl
  · rfl

theorem locate_eq_place (h : fs.locate path = .ok l) : l = fs.place path := by
  rw [(followed_of_ok h).locate_eq] at h
  rw [(walk_spec fs _ _).eq_foldl h, foldl_names]
  rfl

/-- A path that is not empty leads to a location on its way, or to the root. -/
theorem place_mem (fs : Files) (hne : path ≠ "") : fs.place path ∈ fs.way path ∨ fs.place path = [] := by
  by_cases hwords : Path.words path = []
  · right
    rw [place, hwords, start, if_pos (Path.isAbsolute_of_words hne hwords)]
    rfl
  · exact Or.inl (foldl_mem_trail _ hwords)

theorem mem_trail_names {l : Location} (h : l ∈ trail (fs.start path) (Path.names path)) : l ∈ fs.way path ∨ l = fs.place path := by
  rw [Path.names] at h
  split at h
  · rw [trail_append] at h
    rcases List.mem_append.mp h with h | h
    · exact Or.inl h
    · exact Or.inr (List.mem_singleton.mp h)
  · exact Or.inl h

/-! ### Growth -/

/-- Everything that is there stays. -/
structure Keeps (fs fs' : Files) : Prop where
  working : fs'.working = fs.working
  entries : ∀ {l e}, fs.at? l = some e → fs'.at? l = some e

def KeepsDirectories (fs fs' : Files) : Prop :=
  ∀ l, fs.at? l = some .directory → fs'.at? l = some .directory

theorem Walk.of_directories {r : Except FileFault Location} (h : Walk fs l names r) (hkeeps : KeepsDirectories fs fs')
    (hr : r = .ok l') : Walk fs' l names (.ok l') := by
  induction h with
  | done =>
    cases hr
    exact .done
  | last hname hshort =>
    cases hr
    exact .last hname hshort
  | long | missing | blocked => cases hr
  | idle hidle _ ih => exact .idle hidle (ih hr)
  | enter hname hshort hmore hat _ ih => exact .enter hname hshort hmore (hkeeps _ hat) (ih hr)

/-- Names that have not met with a gap lead to the same in every tree that keeps what is there. -/
theorem Walk.of_keeps {r : Except FileFault Location} (h : Walk fs l names r) (hkeeps : Keeps fs fs')
    (hr : r ≠ .error .notFound) : Walk fs' l names r := by
  induction h with
  | done => exact .done
  | last hname hshort => exact .last hname hshort
  | long hname hlong => exact .long hname hlong
  | missing => exact absurd rfl hr
  | blocked hname hshort hmore hat => exact .blocked hname hshort hmore (hkeeps.entries hat)
  | idle hidle _ ih => exact .idle hidle (ih hr)
  | enter hname hshort hmore hat _ ih => exact .enter hname hshort hmore (hkeeps.entries hat) (ih hr)

/-- Short names with no file on their way either lead where they say, or meet with a gap. -/
theorem Walk.of_clear {r : Except FileFault Location} (h : Walk fs l names r) (hshort : ∀ name ∈ names, name.utf8ByteSize ≤ maxName)
    (hclear : ∀ l' ∈ trail l names, ∀ t, fs.at? l' ≠ some (.text t)) :
    r = .error .notFound ∨ r = .ok (names.foldl step l) := by
  induction h with
  | done | last => exact Or.inr rfl
  | missing => exact Or.inl rfl
  | long _ hlong => exact absurd (hshort _ List.mem_cons_self) (Nat.not_le.mpr hlong)
  | blocked _ _ _ hat => exact absurd hat (hclear _ List.mem_cons_self _)
  | idle _ _ ih | enter _ _ _ _ _ ih =>
    exact ih (fun name hn => hshort name (List.mem_cons_of_mem _ hn)) fun l' hl' => hclear l' (List.mem_cons_of_mem _ hl')

/-! ### Reading -/

theorem start_congr (h : fs'.working = fs.working) (path : String) : fs'.start path = fs.start path := by
  rw [start, start, h]

theorem locate_of_directories (h : fs.locate path = .ok l) (hkeeps : KeepsDirectories fs fs')
    (hworking : fs'.working = fs.working) : fs'.locate path = .ok l := by
  have hpath := followed_of_ok h
  rw [hpath.locate_eq] at h
  rw [hpath.locate_eq, start_congr hworking]
  exact ((walk_spec fs _ _).of_directories hkeeps h).eq

theorem locate_of_keeps (hkeeps : Keeps fs fs') (h : fs.locate path ≠ .error .notFound) : fs'.locate path = fs.locate path := by
  rcases followed_or_error path with hpath | ⟨f, hf, -⟩
  · rw [hpath.locate_eq] at h
    rw [hpath.locate_eq, hpath.locate_eq, start_congr hkeeps.working]
    exact ((walk_spec fs _ _).of_keeps hkeeps h).eq
  · rw [hf, hf]

theorem read_of_error {f : FileFault} (h : fs.locate path = .error f) : fs.read path = .error f := by
  rw [read, h]
  rfl

theorem read_of_ok (h : fs.locate path = .ok l) : fs.read path = match fs.at? l with
    | none => .error .notFound
    | some .directory => .error .isDirectory
    | some (.text content) => .ok content := by
  rw [read, h]
  rfl

/-- Whatever is found by reading, unless it is nothing, is found in every tree that keeps what is there. -/
theorem read_of_keeps (hkeeps : Keeps fs fs') (h : fs.read path ≠ .error .notFound) : fs'.read path = fs.read path := by
  cases hl : fs.locate path with
  | error f =>
    rw [read_of_error hl] at h
    have hlocate : fs'.locate path = fs.locate path := locate_of_keeps hkeeps (by
      rintro heq
      rw [hl] at heq
      cases heq
      exact h rfl)
    rw [read_of_error hl, read_of_error (hlocate.trans hl)]
  | ok l =>
    have hl' : fs'.locate path = .ok l := by
      rw [locate_of_keeps hkeeps (by rw [hl]; exact nofun), hl]
    rw [read_of_ok hl] at h
    rw [read_of_ok hl, read_of_ok hl']
    cases hat : fs.at? l with
    | none =>
      rw [hat] at h
      exact absurd rfl h
    | some e => rw [hkeeps.entries hat]

theorem followed_of_notFound (h : fs.read path = .error .notFound) (hne : path ≠ "") : Followed path := by
  rcases followed_or_error path with hpath | ⟨f, hf, hempty⟩
  · exact hpath
  · rw [read_of_error (hf fs)] at h
    cases h
    exact absurd (hempty rfl) hne

theorem short_names (h : ∀ word ∈ Path.words path, word.utf8ByteSize ≤ maxName) :
    ∀ name ∈ Path.names path, name.utf8ByteSize ≤ maxName := by
  intro name hname
  rw [Path.names] at hname
  split at hname
  · rcases List.mem_append.mp hname with hname | hname
    · exact h name hname
    · rw [List.mem_singleton.mp hname]
      decide
  · exact h name hname

/-- Nothing is found by reading if nothing is at the place of the path and no file on its way. -/
theorem read_of_clear (hworking : fs'.working = fs.working) (h : fs.read path = .error .notFound) (hne : path ≠ "")
    (hshort : ∀ word ∈ Path.words path, word.utf8ByteSize ≤ maxName)
    (hclear : ∀ l ∈ fs.way path, ∀ t, fs'.at? l ≠ some (.text t)) (hempty : fs'.at? (fs.place path) = none) :
    fs'.read path = .error .notFound := by
  have hlocate := (followed_of_notFound h hne).locate_eq fs'
  rw [start_congr hworking] at hlocate
  have hall : ∀ l ∈ trail (fs.start path) (Path.names path), ∀ t, fs'.at? l ≠ some (.text t) := by
    intro l hl
    rcases mem_trail_names hl with hl | rfl
    · exact hclear l hl
    · rw [hempty]
      exact nofun
  rcases (walk_spec fs' _ _).of_clear (short_names hshort) hall with hwalk | hwalk
  · exact read_of_error (hlocate.trans hwalk)
  · rw [foldl_names, ← place] at hwalk
    rw [read_of_ok (hlocate.trans hwalk), hempty]

end AddressPlan.Files
