import AddressPlan.Proofs.Store.Document

/-!
Stores that hold a catalog for good. A file is read anew each time, so what it holds could still change when directories
and lock files are made: as long as nothing is read from its path, these may be what the path leads to. Once a catalog has
been found or committed there, nothing that is added to the files changes it.
-/

namespace AddressPlan

/-! ### Paths -/

namespace Files

variable {fs fs' : Files} {path : String} {made opened : List Location}

/-- What is read from a path stays the same when directories and empty files are added at the given places. -/
def Steady (fs : Files) (path : String) (made opened : List Location) : Prop :=
  ∀ fs', fs.Grows fs' made opened → fs'.read path = fs.read path

theorem Settled.steady (h : fs.Settled path made opened) : fs.Steady path made opened :=
  fun _ hg => hg.read_eq h

theorem steady_of_read (h : fs.read path ≠ .error .notFound) : fs.Steady path made opened :=
  Settled.steady (Or.inl h)

theorem Steady.grows (h : fs.Steady path made opened) (hg : fs.Grows fs' made opened) : fs'.Steady path made opened :=
  fun _ hg' => (h _ (hg.trans hg')).trans (h _ hg).symm

end Files

/-! ### Stores -/

namespace Store

variable {st : Store} {c : Catalog} {s t u : Site} {made opened : List Location}

/-- The file that is opened when a transaction begins. -/
def places (fs : Files) : Store → List Location
  | memory => []
  | file path => [fs.place (lockPath path)]

theorem directories_congr {fs fs' : Files} (h : fs'.working = fs.working) (st : Store) :
    st.directories fs' = st.directories fs := by
  cases st with
  | memory => rfl
  | file path => simp only [directories, Files.way_congr h]

theorem places_congr {fs fs' : Files} (h : fs'.working = fs.working) (st : Store) : st.places fs' = st.places fs := by
  cases st with
  | memory => rfl
  | file path => rw [places, places, Files.place_congr h]

/-- The catalog is what is kept, at any time and whatever is added at the given places. -/
def Holds (c : Catalog) (s : Site) (made opened : List Location) : Store → Prop
  | memory => s.memory = c
  | file path => (∀ now, load now s.files path = .ok c) ∧ s.files.Steady path made opened

theorem Holds.kept (h : st.Holds c s made opened) (now : Clock) : st.kept now s = .ok c := by
  cases st with
  | memory => exact congrArg Except.ok h
  | file path => exact h.1 now

theorem Holds.snapshot (h : st.Holds c s made opened) : st.snapshot s = .ok c s := by
  rw [snapshot_apply, h.kept]
  rfl

theorem Holds.congr (h : st.Holds c s made opened) (hfiles : t.files = s.files) (hmemory : t.memory = s.memory) :
    st.Holds c t made opened := by
  cases st with
  | memory => exact hmemory.trans h
  | file path =>
    unfold Holds at h ⊢
    rw [hfiles]
    exact h

theorem Holds.grows (h : st.Holds c s made opened) (hg : s.Grows t made opened) : st.Holds c t made opened := by
  cases st with
  | memory => exact hg.memory.trans h
  | file path => exact ⟨fun now => (load_congr (h.2 _ hg.files) now).trans (h.1 now), h.2.grows hg.files⟩

/-- After the one site, at the other, the catalog is held, and the working directory and the locks are the same. -/
structure HoldsAfter (c : Catalog) (s t : Site) (made opened : List Location) (st : Store) : Prop where
  holds : st.Holds c t made opened
  working : t.files.working = s.files.working
  held : t.held = s.held

theorem HoldsAfter.since (h : st.HoldsAfter c t u made opened) (hworking : t.files.working = s.files.working)
    (hheld : t.held = s.held) : st.HoldsAfter c s u made opened :=
  ⟨h.holds, h.working.trans hworking, h.held.trans hheld⟩

theorem HoldsAfter.note {e : Event} (h : st.HoldsAfter c s t made opened) (he : ∀ held, e.heldAfter held = held) :
    st.HoldsAfter c s (t.note e) made opened :=
  ⟨h.holds.congr rfl rfl, h.working, (t.held_note e).trans ((he _).trans h.held)⟩

/-! ### Locks -/

/-- What is held while a transaction is open. -/
def tokens (fs : Files) : Store → List Token
  | memory => []
  | file path => [token fs path]

theorem tokens_congr {fs fs' : Files} (h : fs'.working = fs.working) (st : Store) : st.tokens fs' = st.tokens fs := by
  cases st with
  | memory => rfl
  | file path => rw [tokens, tokens, token, token, Files.place_congr h]

theorem prepare_leavesLocks (path : String) : (prepare path).LeavesLocks := by
  have hopen : (changeFiles (lockPath path) (·.write (lockPath path) none)).LeavesLocks := (Act.LeavesLocks.changeFiles _).mapError
  rw [prepare]
  split
  · split
    · exact (Act.LeavesLocks.makeDirectories _).mapError.bind fun _ => hopen
    · exact hopen
  · exact hopen

theorem publish_leavesLocks (c : Catalog) (st : Store) : (st.publish c).LeavesLocks := by
  cases st with
  | memory => exact fun _ => rfl
  | file path =>
    refine (Act.LeavesLocks.changeFiles _).mapError.bind fun _ => (Act.LeavesLocks.changeFiles _).mapError.bind fun _ => ?_
    exact .note fun _ => rfl

/-- At the end of a transaction its lock is the one that is not held any more. -/
theorem release_held {held : List Token} (h : t.held = st.tokens t.files ++ held) (hfree : ∀ x ∈ st.tokens t.files, x ∉ held) :
    (st.release t).held = held := by
  cases st with
  | memory => exact h
  | file path =>
    rw [release, Site.held_note_gaveBack, h]
    exact Site.filter_cons_free (hfree _ List.mem_cons_self)

/-! ### Transactions -/

/-- After the one site, at the other, a transaction is open: its lock is held too, and files may have been added. -/
structure Begun (s t : Site) (made opened : List Location) (st : Store) : Prop where
  grows : s.Grows t made opened
  held : t.held = st.tokens s.files ++ s.held

theorem Begun.tokens_eq (h : st.Begun s t made opened) : st.tokens t.files = st.tokens s.files :=
  tokens_congr h.grows.files.working st

theorem Begun.note {e : Event} (h : st.Begun s t made opened) (he : ∀ held, e.heldAfter held = held) :
    st.Begun s (t.note e) made opened :=
  ⟨h.grows.note e, (t.held_note e).trans ((he _).trans h.held)⟩

/-- A transaction that is dropped leaves what is held as it was. -/
theorem Begun.release (h : st.Begun s t made opened) (hholds : st.Holds c s made opened)
    (hfree : ∀ x ∈ st.tokens s.files, x ∉ s.held) : st.HoldsAfter c s (st.release t) made opened where
  holds := (hholds.grows h.grows).congr (st.release_files t) (st.release_memory t)
  working := by rw [release_files, h.grows.files.working]
  held := by
    rw [← h.tokens_eq] at hfree
    exact release_held (h.tokens_eq ▸ h.held) hfree

/-- There is a file to lock, or it could not be made. Only files are added. -/
theorem prepare_meets {path : String} (hmade : (file path).directories s.files ⊆ made) (hopened : (file path).places s.files ⊆ opened) :
    (prepare path).Meets s (fun _ t => s.Grows t made opened) fun e t => e.isIo = true ∧ s.Grows t made opened := by
  have hopen : ∀ t : Site, s.Grows t made opened → (changeFiles (lockPath path) (·.write (lockPath path) none)).Meets t
      (fun _ u => s.Grows u made opened) fun e u => e.isIo = true ∧ s.Grows u made opened := by
    intro t ht
    have hplace : t.files.place (lockPath path) ∈ opened := by
      rw [Files.place_congr ht.files.working]
      exact hopened List.mem_cons_self
    exact .mapError ((Act.open_ends ht hplace).meets.mono_error fun _ _ hu => ⟨rfl, hu⟩)
  rw [Store.prepare]
  split
  · rename_i parent hparent
    split
    · rw [Store.directories, hparent] at hmade
      have hmake := (Act.makeDirectories_ends (.refl s made opened) hmade).meets
      exact .bind (.mapError (hmake.mono_error fun _ _ ht => ⟨rfl, ht⟩)) fun _ t ht => hopen t ht
    · exact hopen s (.refl s made opened)
  · exact hopen s (.refl s made opened)

/-- Opening a transaction whose lock is free gives the catalog that is held, or fails because of files. -/
theorem begin_meets (h : st.Holds c s made opened) (hfree : ∀ x ∈ st.tokens s.files, x ∉ s.held)
    (hmade : st.directories s.files ⊆ made) (hopened : st.places s.files ⊆ opened) :
    st.begin.Meets s (fun c' t => c' = c ∧ st.Begun s t made opened) fun e t => e.isIo = true ∧ s.Grows t made opened := by
  cases st with
  | memory =>
    rw [Act.Meets, Store.begin, h.snapshot]
    exact ⟨rfl, .refl s made opened, rfl⟩
  | file path =>
    have hprepare := (prepare_leavesLocks path).meets (prepare_meets hmade hopened)
    refine .bind (hprepare.mono_error fun _ _ he => he.1) fun _ t hprepared => .get ?_
    obtain ⟨ht, hheld⟩ := hprepared
    have htoken : token t.files path = token s.files path := by rw [token, token, Files.place_congr ht.files.working]
    have htake : (Act.take (token t.files path) (StoreError.io (lockPath path) .locked)).Meets t
        (fun _ u => (file path).Begun s u made opened) fun e u => e.isIo = true ∧ s.Grows u made opened := by
      refine .take (fun _ => ⟨ht.note _, ?_⟩) fun hlocked => ?_
      · rw [Site.held_note_took, htoken, hheld]
        rfl
      · rw [htoken, hheld] at hlocked
        exact absurd hlocked (hfree _ List.mem_cons_self)
    refine .bind htake fun _ u hu => .note_bind (.ifFails ?_)
    have hopened := hu.note (e := .opened path) fun _ => rfl
    rw [Act.Meets, (h.grows hopened.grows).snapshot]
    exact ⟨rfl, hopened⟩

/-- What is committed is held from then on, whatever is added, or the commit fails because of files. -/
theorem commit_meets (c : Catalog) (hbegun : st.Begun s t made opened) (hfree : ∀ x ∈ st.tokens s.files, x ∉ s.held) :
    (st.commit c).Meets t (fun _ u => ∀ made opened, st.HoldsAfter c s u made opened) fun e _ => e.isIo = true := by
  have hpublish : (st.publish c).Meets t (fun _ u => ∀ made opened, st.Holds c u made opened ∧ u.files.working = t.files.working)
      fun e _ => e.isIo = true := by
    cases st with
    | memory => exact fun _ _ => ⟨rfl, rfl⟩
    | file path =>
      refine (publish_file_meets path c t).mono (fun _ u ⟨hu, hworking⟩ _ _ => ⟨⟨load_of_text hu, ?_⟩, hworking⟩)
        fun _ _ he => he.1
      refine Files.steady_of_read ?_
      rw [hu]
      exact nofun
  refine .andFinally (((publish_leavesLocks c st).meets hpublish).mono (fun _ u ⟨hu, hheld⟩ made opened => ?_) fun _ _ he => he.1)
  obtain ⟨hholds, hworking⟩ := hu made opened
  have htokens : st.tokens u.files = st.tokens s.files := (tokens_congr hworking st).trans hbegun.tokens_eq
  refine ⟨hholds.congr (st.release_files u) (st.release_memory u), ?_, ?_⟩
  · rw [release_files, hworking, hbegun.grows.files.working]
  · rw [← htokens] at hfree
    exact release_held (by rw [hheld, hbegun.held, htokens]) hfree

end Store

end AddressPlan
