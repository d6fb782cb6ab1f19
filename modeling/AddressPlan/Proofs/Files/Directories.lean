import AddressPlan.Proofs.Files.Growth

/-!
Files in a directory: a name that is joined to a directory leads to the location of that name in it, so that names alone
tell the files of a directory apart. A directory that has been made is there, and so is a file that has been opened; doing
so again changes nothing.
-/

namespace AddressPlan

namespace Path

variable {path directory name : String}

/-! ### A name in a directory -/

theorem words_append_name (front : List Char) (hslash : '/' ∉ name.toList) (hne : name ≠ "") :
    words (.ofList (front ++ '/' :: name.toList)) = words (.ofList front) ++ [name] := by
  rw [Ne, ← String.toList_inj] at hne
  rw [words_eq, words_eq, String.toList_ofList, String.toList_ofList, List.splitOn_append_cons_self,
    List.splitOn_eq_singleton hslash, wordsOf_append, wordsOf_single hne, String.ofList_toList]

theorem words_join (directory : String) (hslash : '/' ∉ name.toList) (hne : name ≠ "") :
    words (join directory name) = words directory ++ [name] := by
  rw [join]
  split
  · rename_i hjoin
    rcases Bool.or_eq_true_iff.mp hjoin with hempty | hlast
    · have hempty : directory = "" := by simpa using hempty
      have hname : name.toList ≠ [] := by rwa [Ne, String.toList_eq_nil_iff]
      rw [hempty, String.empty_append, words_eq, List.splitOn_eq_singleton hslash, wordsOf_single hname, String.ofList_toList]
      rfl
    · obtain ⟨front, hfront⟩ := List.getLast?_eq_some_iff.mp (eq_of_beq hlast)
      have hdirectory : directory = .ofList (front ++ ['/']) := by rw [← hfront, String.ofList_toList]
      have hjoined : directory ++ name = .ofList (front ++ '/' :: name.toList) := by
        rw [← String.toList_inj, String.toList_append, hfront, String.toList_ofList, List.append_assoc, List.singleton_append]
      rw [hjoined, words_append_name front hslash hne, hdirectory, words_append_slashes front (by simp)]
  · have hjoined : directory ++ "/" ++ name = .ofList (directory.toList ++ '/' :: name.toList) := by
      rw [← String.toList_inj, String.toList_ofList, String.toList_append, String.toList_append, List.append_assoc]
      rfl
    rw [hjoined, words_append_name _ hslash hne, String.ofList_toList]

theorem isAbsolute_join (directory : String) (hslash : '/' ∉ name.toList) :
    isAbsolute (join directory name) = isAbsolute directory := by
  by_cases hempty : directory = ""
  · subst hempty
    have hjoin : join "" name = name := String.empty_append
    have hname : isAbsolute name = false := by
      rw [isAbsolute, beq_eq_false_iff_ne]
      exact fun hhead => hslash (List.mem_of_mem_head? hhead)
    rw [hjoin, hname]
    rfl
  · rw [join]
    split
    · exact isAbsolute_append_string hempty name
    · rw [String.append_assoc]
      exact isAbsolute_append_string hempty _

end Path

namespace Files

variable {fs fs' : Files} {l l' : Location} {path name : String} {names : List String}

theorem place_join (fs : Files) (directory : String) (hslash : '/' ∉ name.toList) (hlong : 2 < name.length) :
    fs.place (Path.join directory name) = fs.place directory ++ [name] := by
  have hne : name ≠ "" := by
    rintro rfl
    exact absurd hlong (by decide)
  have hstep : ∀ l, step l name = l ++ [name] := by
    intro l
    rw [step, if_neg, if_neg] <;> rintro rfl <;> exact absurd hlong (by decide)
  rw [place, place, start, start, Path.isAbsolute_join directory hslash, Path.words_join directory hslash hne,
    List.foldl_append, List.foldl_cons, List.foldl_nil, hstep]

/-! ### Directories that are there -/

/-- A point behind a path asks for a directory. -/
theorem Walk.append_dot {r : Except FileFault Location} (h : Walk fs l names r) (hr : r = .ok l')
    (hat : fs.at? l' = some .directory) : Walk fs l (names ++ ["."]) (.ok l') := by
  induction h with
  | done =>
    cases hr
    exact .idle (Or.inl rfl) .done
  | last hname hshort =>
    cases hr
    exact .enter hname hshort (List.cons_ne_nil _ _) hat (.idle (Or.inl rfl) .done)
  | long | missing | blocked => cases hr
  | idle hidle _ ih => exact .idle hidle (ih hr)
  | enter hname hshort _ hdir _ ih =>
    exact .enter hname hshort (List.append_ne_nil_of_right_ne_nil _ (List.cons_ne_nil _ _)) hdir (ih hr)

theorem Walk.of_append_dot : ∀ {names : List String} {l : Location}, Walk fs l (names ++ ["."]) (.ok l') → Walk fs l names (.ok l')
  | [], l, h => by
    cases h with
    | idle _ h =>
      cases h
      exact .done
    | last hname => exact absurd (Or.inl rfl) hname
    | enter hname => exact absurd (Or.inl rfl) hname
  | name :: names, l, h => by
    rw [List.cons_append] at h
    generalize hrest : names ++ ["."] = rest at h
    cases h with
    | idle hidle h =>
      subst hrest
      exact .idle hidle h.of_append_dot
    | last => exact absurd hrest (List.append_ne_nil_of_right_ne_nil _ (List.cons_ne_nil _ _))
    | enter hname hshort _ hat h =>
      subst hrest
      have hwalk := h.of_append_dot
      cases names with
      | nil =>
        cases hwalk
        exact .last hname hshort
      | cons next names => exact .enter hname hshort (List.cons_ne_nil _ _) hat hwalk

theorem Followed.of_join {directory : String} (h : Followed (Path.join directory name)) (hne : directory ≠ "") :
    Followed directory := by
  rw [Path.join] at h
  split at h
  · exact h.of_append hne
  · rw [String.append_assoc] at h
    exact h.of_append hne

theorem Followed.trimmed (h : Followed path) : Followed (Path.trimmed path) := by
  rcases Path.trimmed_cases path with heq | ⟨suffix, hpath, hne, -⟩
  · rwa [heq]
  · rw [hpath] at h
    exact h.of_append hne

/-- Slashes at its end make no difference to a path that leads to a directory. -/
theorem locate_trimmed (hpath : Followed path) (hat : fs.at? l = some .directory) :
    fs.locate (Path.trimmed path) = .ok l ↔ fs.locate path = .ok l := by
  rcases Path.trimmed_cases path with heq | ⟨_, -, -, -, htrimmed, hnames⟩
  · rw [heq]
  rw [hpath.locate_eq, hpath.trimmed.locate_eq, start_trimmed, htrimmed, hnames]
  constructor
  · intro h
    have hwalk := walk_spec fs (fs.start path) (Path.words path)
    exact (hwalk.append_dot h hat).eq
  · intro h
    have hwalk := walk_spec fs (fs.start path) (Path.words path ++ ["."])
    rw [h] at hwalk
    exact hwalk.of_append_dot.eq

/-- A directory that is there, where the empty path is the working directory. -/
def Entered (fs : Files) (path : String) : Prop :=
  path = "" ∨ Followed path ∧ fs.isDirectory path = true

theorem isDirectory_iff : fs.isDirectory path = true ↔ ∃ l, fs.locate path = .ok l ∧ fs.at? l = some .directory := by
  rw [isDirectory]
  cases fs.locate path with
  | ok l => simp
  | error f => simp

theorem Entered.of_directories (h : fs.Entered path) (hkeeps : KeepsDirectories fs fs') (hworking : fs'.working = fs.working) :
    fs'.Entered path := by
  rcases h with hempty | ⟨hpath, hdir⟩
  · exact Or.inl hempty
  · obtain ⟨l, hl, hat⟩ := isDirectory_iff.mp hdir
    exact Or.inr ⟨hpath, isDirectory_iff.mpr ⟨l, locate_of_directories hl hkeeps hworking, hkeeps l hat⟩⟩

theorem Entered.makeDirectories_eq (h : fs.Entered path) : fs.makeDirectories path = .ok fs := by
  rcases h with rfl | ⟨hpath, hdir⟩
  · rfl
  obtain ⟨l, hl, hat⟩ := isDirectory_iff.mp hdir
  have hone : fs.makeOne path = .error .alreadyThere := by
    rw [makeOne_eq]
    refine bind_eq_error.mpr (Or.inr ⟨l, (locate_trimmed hpath hat).mpr hl, ?_⟩)
    rw [hat]
    rfl
  have hlast : fs.makeLast path = .ok fs := by
    rw [makeLast, makeOrAccept, hone]
    dsimp only
    rw [if_pos hdir]
    rfl
  rw [makeDirectories, if_neg (by simpa using hpath.nonempty)]
  cases path.length with
  | zero => exact hlast
  | succ n =>
    rw [makeAll, hone]
    exact hlast

theorem makeLast_eq_ok (hpath : Followed path) (h : fs.makeLast path = .ok fs') : fs'.isDirectory path = true := by
  have h := mapError_eq_ok.mp h
  unfold makeOrAccept at h
  split at h
  · rename_i hone
    cases h
    obtain ⟨l, hl, -, hat, rfl⟩ := makeOne_eq_ok hone
    have hput : (fs.put l .directory).at? l = some .directory := at?_put_self (ne_nil_of_none hat)
    have hkeeps : KeepsDirectories fs (fs.put l .directory) := keepsDirectories_put (by rw [hat]; exact nofun)
    have hlocate := locate_of_directories hl hkeeps rfl
    exact isDirectory_iff.mpr ⟨l, (locate_trimmed hpath hput).mp hlocate, hput⟩
  · split at h
    · rename_i hdir
      cases h
      exact hdir
    · cases h

/-- A directory that has been made is there. -/
theorem makeDirectories_entered (hpath : path ≠ "" → Followed path) (h : fs.makeDirectories path = .ok fs') :
    fs'.Entered path := by
  by_cases hempty : path = ""
  · exact Or.inl hempty
  have hpath := hpath hempty
  refine Or.inr ⟨hpath, ?_⟩
  rw [makeDirectories, if_neg (by simpa using hempty)] at h
  cases hdepth : path.length with
  | zero =>
    rw [hdepth] at h
    exact makeLast_eq_ok hpath h
  | succ n =>
    rw [hdepth, makeAll] at h
    split at h
    · split at h
      · cases h
      · obtain ⟨gs, -, hlast⟩ := bind_eq_ok.mp h
        exact makeLast_eq_ok hpath hlast
    · exact makeLast_eq_ok hpath h

/-! ### Files that are there -/

def HasFile (fs : Files) (path : String) : Prop :=
  ∃ l content, fs.locate path = .ok l ∧ fs.at? l = some (.text content)

theorem HasFile.write_eq (h : fs.HasFile path) : fs.write path none = .ok fs := by
  obtain ⟨l, content, hl, hat⟩ := h
  refine bind_eq_ok.mpr ⟨l, hl, ?_⟩
  rw [hat]
  rfl

/-- A file that has been opened or written is there. -/
theorem hasFile_of_write {content? : Option String} (h : fs.write path content? = .ok fs') : fs'.HasFile path := by
  have hmade : ∀ l text, fs.locate path = .ok l → fs.at? l ≠ some .directory → (fs.put l (.text text)).HasFile path :=
    fun l text hl hat => ⟨l, text, locate_of_directories hl (keepsDirectories_put hat) rfl, at?_put_self (by rintro rfl; exact hat rfl)⟩
  obtain ⟨l, hl, hput⟩ := bind_eq_ok.mp h
  split at hput
  · cases hput
  · rename_i content hat
    cases hput
    exact ⟨l, content, hl, hat⟩
  · rename_i hat
    cases hput
    exact hmade l _ hl (by rw [hat]; exact nofun)
  · rename_i hat
    cases hput
    exact hmade l _ hl hat

/-! ### What is left alone -/

/-- All directories stay, and so does what is not at the given locations. -/
structure Spares (fs fs' : Files) (touched : List Location) : Prop where
  working : fs'.working = fs.working
  directories : KeepsDirectories fs fs'
  others : ∀ {l e}, l ∉ touched → fs.at? l = some e → fs'.at? l = some e

theorem spares_write {content? : Option String} (h : fs.write path content? = .ok fs') : fs.Spares fs' [fs.place path] := by
  obtain ⟨l, hl, hat, hput, -⟩ := write_eq_ok h
  rcases hput with rfl | ⟨t, rfl⟩
  · exact ⟨rfl, fun _ h => h, fun _ h => h⟩
  · refine ⟨rfl, keepsDirectories_put hat, fun hother h => ?_⟩
    rwa [at?_put_ne fun heq => hother (List.mem_singleton.mpr (heq.trans (locate_eq_place hl)))]

/-- A file, other than a directory, can be moved without any harm to a third place. -/
theorem spares_rename {source target : String} (h : fs.rename source target = .ok fs') (hsource : fs.HasFile source) :
    fs.Spares fs' [fs.place source, fs.place target] := by
  obtain ⟨s, t, e, hs, ht, -, htarget, rfl⟩ := rename_eq_ok h
  obtain ⟨s', content, hs', hfile⟩ := hsource
  cases hs.symm.trans hs'
  have hother : ∀ {l}, l ≠ s → l ≠ t → ((fs.drop s).put t e).at? l = fs.at? l := fun hls hlt => by
    rw [at?_put_ne hlt, at?_drop_ne hls]
  refine ⟨rfl, fun l hl => ?_, fun hl hat => ?_⟩
  · rw [hother, hl]
    · rintro rfl
      cases hl.symm.trans hfile
    · rintro rfl
      exact htarget hl
  · rw [← locate_eq_place hs, ← locate_eq_place ht, List.mem_cons, List.mem_singleton, not_or] at hl
    rw [hother hl.1 hl.2, hat]

end Files

end AddressPlan
