import AddressPlan.Proofs.Files.Tree

/-!
How calls change a tree of files. Making directories and opening a file that is not there only add to it, and only at
places that the call names; a file beside another one is written without a change to what is read from that one.
-/

namespace AddressPlan.Files

variable {fs fs' : Files} {l l' : Location} {e : Entry} {path : String} {directories texts : List Location}

/-- Nothing is gone, and nothing has come but directories and empty files at the given places. -/
structure Grows (fs fs' : Files) (directories texts : List Location) : Prop extends Keeps fs fs' where
  added : ∀ {l e}, fs'.at? l = some e →
    fs.at? l = some e ∨ (e = .directory ∧ l ∈ directories) ∨ (e = .text "" ∧ l ∈ texts)

theorem Grows.refl (fs : Files) (directories texts : List Location) : Grows fs fs directories texts :=
  ⟨⟨rfl, id⟩, Or.inl⟩

theorem Grows.trans {gs hs : Files} (h : Grows fs gs directories texts) (h' : Grows gs hs directories texts) :
    Grows fs hs directories texts where
  working := h'.working.trans h.working
  entries he := h'.entries (h.entries he)
  added he := by
    rcases h'.added he with he | hnew
    · exact h.added he
    · exact Or.inr hnew

theorem Grows.mono {directories' texts' : List Location} (h : Grows fs fs' directories texts) (hd : directories ⊆ directories')
    (ht : texts ⊆ texts') : Grows fs fs' directories' texts' where
  toKeeps := h.toKeeps
  added he := by
    rcases h.added he with he | ⟨rfl, hl⟩ | ⟨rfl, hl⟩
    · exact Or.inl he
    · exact Or.inr (Or.inl ⟨rfl, hd hl⟩)
    · exact Or.inr (Or.inr ⟨rfl, ht hl⟩)

theorem ne_nil_of_none (h : fs.at? l = none) : l ≠ [] := by
  rintro rfl
  cases h

theorem keeps_put (h : fs.at? l = none) : Keeps fs (fs.put l e) := by
  refine ⟨rfl, fun {l' e'} he => ?_⟩
  rw [at?_put_ne, he]
  rintro rfl
  rw [h] at he
  cases he

theorem grows_put (h : fs.at? l = none) (hnew : (e = .directory ∧ l ∈ directories) ∨ (e = .text "" ∧ l ∈ texts)) :
    Grows fs (fs.put l e) directories texts where
  toKeeps := keeps_put h
  added {l' e'} he := by
    by_cases heq : l' = l
    · subst heq
      rw [at?_put_self (ne_nil_of_none h)] at he
      cases he
      exact Or.inr hnew
    · rw [at?_put_ne heq] at he
      exact Or.inl he

/-! ### Reading in a grown tree -/

/-- Nothing is at a path, and nothing can come to be there or in its way when the given places are filled. -/
structure Vacant (fs : Files) (path : String) (directories texts : List Location) : Prop where
  short : ∀ word ∈ Path.words path, word.utf8ByteSize ≤ maxName
  clear : ∀ l ∈ fs.way path, ∀ t, fs.at? l ≠ some (.text t)
  empty : fs.at? (fs.place path) = none
  directories : fs.place path ∉ directories
  texts : ∀ l ∈ texts, l ∉ fs.way path

/-- What is read from a path is settled: it is something, or it stays nothing when the given places are filled. -/
def Settled (fs : Files) (path : String) (directories texts : List Location) : Prop :=
  fs.read path ≠ .error .notFound ∨ path = "" ∨ Vacant fs path directories texts

theorem Vacant.read_eq (hv : Vacant fs path directories texts) (hne : path ≠ "") (hr : fs.read path = .error .notFound)
    (h : Grows fs fs' directories texts) : fs'.read path = .error .notFound := by
  refine read_of_clear h.working hr hne hv.short (fun l hl t hat => ?_) ?_
  · rcases h.added hat with hat | ⟨heq, -⟩ | ⟨-, ht⟩
    · exact hv.clear l hl t hat
    · cases heq
    · exact hv.texts l ht hl
  · cases hat : fs'.at? (fs.place path) with
    | none => rfl
    | some e =>
      rcases h.added hat with hat | ⟨-, hd⟩ | ⟨-, ht⟩
      · rw [hv.empty] at hat
        cases hat
      · exact absurd hd hv.directories
      · rcases place_mem fs hne with hmem | hroot
        · exact absurd hmem (hv.texts _ ht)
        · exact absurd hroot (ne_nil_of_none hv.empty)

theorem Grows.read_eq (h : Grows fs fs' directories texts) (hs : Settled fs path directories texts) :
    fs'.read path = fs.read path := by
  by_cases hempty : path = ""
  · subst hempty
    rfl
  by_cases hr : fs.read path = .error .notFound
  · rcases hs with hs | hs | hv
    · exact absurd hr hs
    · exact absurd hs hempty
    · rw [hr, hv.read_eq hempty hr h]
  · exact read_of_keeps h.toKeeps hr

/-! ### Making directories -/

/-- The files that are left when directories have been made, whether that has succeeded or not. -/
def leftBy : Except Interrupted Files → Files
  | .ok fs => fs
  | .error i => i.files

theorem way_congr (h : fs'.working = fs.working) (path : String) : fs'.way path = fs.way path := by
  rw [way, way, start_congr h]

theorem place_congr (h : fs'.working = fs.working) (path : String) : fs'.place path = fs.place path := by
  rw [place, place, start_congr h]

/-- The directory of a path is on its way, and so is what that directory lies in. -/
theorem way_parent {parent : String} (h : Path.parent? path = some parent) : fs.way parent ⊆ fs.way path := by
  by_cases hne : parent = ""
  · subst hne
    exact List.nil_subset _
  · obtain ⟨habsolute, more, hwords⟩ := Path.parent?_eq_some h hne
    rw [way, way, start, start, habsolute, ← hwords, trail_append]
    exact List.subset_append_left _ _

theorem start_trimmed (fs : Files) (path : String) : fs.start (Path.trimmed path) = fs.start path := by
  rcases Path.trimmed_cases path with heq | ⟨suffix, hsuffix, hne, -⟩
  · rw [heq]
  · have habsolute := Path.isAbsolute_append_string hne suffix
    rw [← hsuffix] at habsolute
    rw [start, start, habsolute]

/-- A path without the slashes at its end leads to the same place. -/
theorem place_trimmed (fs : Files) (path : String) : fs.place (Path.trimmed path) = fs.place path := by
  rw [place, place, start_trimmed]
  rcases Path.trimmed_cases path with heq | ⟨_, -, -, hwords, -⟩
  · rw [heq]
  · rw [hwords]

theorem makeOne_eq (fs : Files) (path : String) : fs.makeOne path = do
    let l ← fs.locate (Path.trimmed path)
    match fs.at? l with
    | some _ => throw .alreadyThere
    | none => return fs.put l .directory := rfl

theorem makeOne_eq_ok (h : fs.makeOne path = .ok fs') : ∃ l, fs.locate (Path.trimmed path) = .ok l ∧ l ∈ fs.way path ∧
    fs.at? l = none ∧ fs' = fs.put l .directory := by
  rw [makeOne_eq] at h
  obtain ⟨l, hl, h⟩ := bind_eq_ok.mp h
  split at h
  · cases h
  · rename_i hat
    cases h
    have hplace : l = fs.place path := (locate_eq_place hl).trans (place_trimmed fs path)
    have hne : path ≠ "" := by
      rintro rfl
      exact (followed_of_ok hl).nonempty rfl
    refine ⟨l, hl, ?_, hat, rfl⟩
    rcases place_mem fs hne with hmem | hroot
    · rwa [hplace]
    · exact absurd (hplace.trans hroot) (ne_nil_of_none hat)

theorem makeOrAccept_eq_ok (h : fs.makeOrAccept path = .ok fs') : Grows fs fs' (fs.way path) [] := by
  unfold makeOrAccept at h
  split at h
  · rename_i hone
    cases h
    obtain ⟨l, -, hl, hat, rfl⟩ := makeOne_eq_ok hone
    exact grows_put hat (Or.inl ⟨rfl, hl⟩)
  · split at h
    · cases h
      exact .refl _ _ _
    · cases h

theorem makeLast_grows (fs : Files) (path : String) : Grows fs (leftBy (fs.makeLast path)) (fs.way path) [] := by
  unfold makeLast
  cases h : fs.makeOrAccept path with
  | error f => exact .refl _ _ _
  | ok fs' => exact makeOrAccept_eq_ok h

/-- Making directories adds nothing but directories on the way of the path, also if it ends halfway. -/
theorem makeAll_grows (fs : Files) : ∀ (depth : Nat) (path : String),
    Grows fs (leftBy (fs.makeAll depth path)) (fs.way path) []
  | 0, path => makeLast_grows fs path
  | depth + 1, path => by
    rw [makeAll]
    split
    · cases hparent : Path.parent? path with
      | none => exact .refl _ _ _
      | some parent =>
        have hgrows := (makeAll_grows fs depth parent).mono (way_parent hparent) (List.Subset.refl [])
        dsimp only
        cases hmade : fs.makeAll depth parent with
        | error i =>
          rw [hmade] at hgrows
          exact hgrows
        | ok gs =>
          rw [hmade] at hgrows
          have hworking : gs.working = fs.working := hgrows.working
          have hlast := makeLast_grows gs path
          rw [way_congr hworking] at hlast
          exact hgrows.trans hlast
    · exact makeLast_grows fs path

theorem makeDirectories_grows (fs : Files) (path : String) :
    Grows fs (leftBy (fs.makeDirectories path)) (fs.way path) [] := by
  rw [makeDirectories]
  split
  · exact .refl _ _ _
  · exact makeAll_grows fs _ path

/-! ### Opening a file -/

/-- A file that is opened for writing is made if it is not there, and not changed. -/
theorem open_grows (h : fs.write path none = .ok fs') : Grows fs fs' [] [fs.place path] := by
  obtain ⟨l, hl, h⟩ := bind_eq_ok.mp h
  have hplace := locate_eq_place hl
  split at h
  · cases h
  · cases h
    exact .refl _ _ _
  · rename_i hat _
    cases h
    exact grows_put hat (Or.inr ⟨rfl, List.mem_singleton.mpr hplace⟩)
  · rename_i heq _
    cases heq

/-! ### A file beside another one -/

/-- Followed names may end differently: what comes before the last one has been entered. -/
theorem Walk.replace_last {name other : String} (hother : ¬ (other = "." ∨ other = ".."))
    (hname : (name = "." ∨ name = "..") ∨ name.utf8ByteSize ≤ other.utf8ByteSize) : ∀ {names : List String} {l : Location},
    Walk fs l (names ++ [other]) (.ok l') → l' = names.foldl step l ++ [other] ∧
      Walk fs l (names ++ [name]) (.ok (step (names.foldl step l) name))
  | [], l, h => by
    obtain ⟨hdot, hup⟩ := not_or.mp hother
    have hstep : step l other = l ++ [other] := by rw [step, if_neg hdot, if_neg hup]
    cases h with
    | idle hidle => exact absurd hidle hother
    | enter _ _ hmore => exact absurd rfl hmore
    | last _ hshort =>
      refine ⟨hstep, ?_⟩
      by_cases hidle : name = "." ∨ name = ".."
      · exact .idle hidle .done
      · exact .last hidle (Nat.le_trans (hname.resolve_left hidle) hshort)
  | n :: names, l, h => by
    rw [List.cons_append] at h ⊢
    generalize hrest : names ++ [other] = rest at h
    cases h with
    | idle hidle h =>
      subst hrest
      obtain ⟨hl, hwalk⟩ := Walk.replace_last hother hname h
      exact ⟨hl, .idle hidle hwalk⟩
    | last => exact absurd hrest (List.append_ne_nil_of_right_ne_nil _ (List.cons_ne_nil _ _))
    | enter hn hshort _ hat h =>
      subst hrest
      obtain ⟨hl, hwalk⟩ := Walk.replace_last hother hname h
      exact ⟨hl, .enter hn hshort (List.append_ne_nil_of_right_ne_nil _ (List.cons_ne_nil _ _)) hat hwalk⟩

/-- What may be put behind a path to name another file in the same directory. -/
structure Suffix (suffix : String) : Prop where
  slash : '/' ∉ suffix.toList
  long : 2 < suffix.length

theorem Suffix.ne_empty {suffix : String} (h : Suffix suffix) : suffix ≠ "" := by
  rintro rfl
  exact absurd h.long (by decide)

theorem Suffix.length {suffix : String} (h : Suffix suffix) (last : String) : 2 < (last ++ suffix).length := by
  rw [String.length_append]
  exact Nat.lt_of_lt_of_le h.long (Nat.le_add_left _ _)

theorem step_ne {name other : String} (hne : name ≠ other) (l : Location) : step l name ≠ l ++ [other] := by
  intro heq
  rw [step] at heq
  split at heq
  · exact absurd (congrArg List.length heq) (by simp)
  split at heq
  · have hlen := congrArg List.length heq
    simp only [List.length_dropLast, List.length_append, List.length_singleton] at hlen
    omega
  · exact hne (List.singleton_inj.mp (List.append_cancel_left heq))

/-- If the file beside a path can be located, so can the path, and it leads elsewhere. -/
theorem locate_beside {suffix : String} (hsuffix : Suffix suffix) (hne : path ≠ "") (h : fs.locate (path ++ suffix) = .ok l') :
    ∃ l, fs.locate path = .ok l ∧ l ≠ l' := by
  obtain ⟨ns, name, last, hnames, hbeside, hlast⟩ := Path.names_append hne hsuffix.ne_empty hsuffix.slash
  have hother : ¬ (last ++ suffix = "." ∨ last ++ suffix = "..") := by
    have hlong := hsuffix.length last
    rintro (heq | heq) <;> rw [heq] at hlong <;> exact absurd hlong (by decide)
  have hfollowed := followed_of_ok h
  have hwalk := walk_spec fs (fs.start (path ++ suffix)) (Path.names (path ++ suffix))
  rw [← hfollowed.locate_eq, h, start, Path.isAbsolute_append_string hne, ← start, hbeside] at hwalk
  have hsize : (name = "." ∨ name = "..") ∨ name.utf8ByteSize ≤ (last ++ suffix).utf8ByteSize := by
    rcases hlast with rfl | rfl
    · exact Or.inl (Or.inl rfl)
    · rw [String.utf8ByteSize_append]
      exact Or.inr (Nat.le_add_right _ _)
  obtain ⟨rfl, hpath⟩ := hwalk.replace_last hother hsize
  have hdiffers : name ≠ last ++ suffix := by
    rcases hlast with rfl | rfl
    · exact fun heq => hother (Or.inl heq.symm)
    · intro heq
      have hlen := congrArg String.length heq
      rw [String.length_append] at hlen
      have hlong := hsuffix.long
      omega
  refine ⟨step (ns.foldl step (fs.start path)) name, ?_, step_ne hdiffers _⟩
  rw [(hfollowed.of_append hne).locate_eq, hnames]
  exact hpath.eq

theorem write_eq_ok {content? : Option String} (h : fs.write path content? = .ok fs') : ∃ l, fs.locate path = .ok l ∧
    fs.at? l ≠ some .directory ∧ (fs' = fs ∨ ∃ t, fs' = fs.put l (.text t)) ∧
    ∀ t, content? = some t → fs' = fs.put l (.text t) := by
  obtain ⟨l, hl, hput⟩ := bind_eq_ok.mp h
  refine ⟨l, hl, ?_⟩
  split at hput
  · cases hput
  · rename_i hat
    cases hput
    rw [hat]
    exact ⟨nofun, Or.inl rfl, nofun⟩
  · rename_i hat
    cases hput
    rw [hat]
    exact ⟨nofun, Or.inr ⟨_, rfl⟩, nofun⟩
  · rename_i hdirectory
    cases hput
    refine ⟨hdirectory, Or.inr ⟨_, rfl⟩, fun t ht => ?_⟩
    cases ht
    rfl

theorem keepsDirectories_put (h : fs.at? l ≠ some .directory) : KeepsDirectories fs (fs.put l e) := by
  intro l' hl'
  rw [at?_put_ne, hl']
  rintro rfl
  exact h hl'

/-- Writing a file beside a path does not change what is read from the path. -/
theorem read_of_write_beside {suffix : String} {content? : Option String} (hsuffix : Suffix suffix)
    (h : fs.write (path ++ suffix) content? = .ok fs') : fs'.read path = fs.read path := by
  by_cases hne : path = ""
  · subst hne
    rfl
  obtain ⟨l', hl', hat, hput, -⟩ := write_eq_ok h
  obtain ⟨l, hl, hother⟩ := locate_beside hsuffix hne hl'
  rcases hput with rfl | ⟨t, rfl⟩
  · rfl
  · have hl₁ : (fs.put l' (.text t)).locate path = .ok l := locate_of_directories hl (keepsDirectories_put hat) rfl
    rw [read_of_ok hl, read_of_ok hl₁, at?_put_ne hother]

theorem rename_eq_ok {source target : String} (h : fs.rename source target = .ok fs') : ∃ s t e, fs.locate source = .ok s ∧
    fs.locate target = .ok t ∧ fs.at? s = some e ∧ fs.at? t ≠ some .directory ∧ fs' = (fs.drop s).put t e := by
  obtain ⟨s, hs, hmove⟩ := bind_eq_ok.mp h
  obtain ⟨t, ht, hmove⟩ := bind_eq_ok.mp hmove
  split at hmove
  · cases hmove
  · cases hmove
  · rename_i he hdirectory
    cases hmove
    exact ⟨s, t, _, hs, ht, he, hdirectory, rfl⟩

/-- A text that is written beside a path and moved there is read from the path. -/
theorem read_of_rename {suffix content : String} {gs : Files} (hwrite : fs.write (path ++ suffix) (some content) = .ok gs)
    (hrename : gs.rename (path ++ suffix) path = .ok fs') : fs'.read path = .ok content := by
  obtain ⟨s, hs, hat, -, hput⟩ := write_eq_ok hwrite
  have hgs := hput content rfl
  subst hgs
  obtain ⟨s', t, e, hs', ht, he, htarget, rfl⟩ := rename_eq_ok hrename
  have hne : s ≠ [] := by
    rintro rfl
    exact hat rfl
  have hsame := hs'.symm.trans (locate_of_directories hs (keepsDirectories_put hat) rfl)
  cases hsame
  rw [at?_put_self hne] at he
  cases he
  have hne' : t ≠ [] := by
    rintro rfl
    exact htarget rfl
  have hkeeps : KeepsDirectories (fs.put s (.text content)) (((fs.put s (.text content)).drop s).put t (.text content)) := by
    intro l hl
    rw [at?_put_ne, at?_drop_ne, hl]
    · rintro rfl
      rw [at?_put_self hne] at hl
      cases hl
    · rintro rfl
      exact htarget hl
  rw [read_of_ok (locate_of_directories ht hkeeps rfl), at?_put_self hne']

/-! ### The working directory -/

theorem write_working {content? : Option String} (h : fs.write path content? = .ok fs') : fs'.working = fs.working := by
  obtain ⟨l, -, -, rfl | ⟨t, rfl⟩, -⟩ := write_eq_ok h <;> rfl

theorem rename_working {source target : String} (h : fs.rename source target = .ok fs') : fs'.working = fs.working := by
  obtain ⟨s, t, e, -, -, -, -, rfl⟩ := rename_eq_ok h
  rfl

end AddressPlan.Files
