import AddressPlan.Proofs.Catalog.Codec
import AddressPlan.Proofs.Files.Growth
import AddressPlan.Proofs.Store.Site

/-!
Transactions on a store: opening one may add directories and a lock file, but does not change what is kept, and what is
committed is what is kept from then on. A transaction that is not committed, or whose commit fails, has changed nothing.
-/

namespace AddressPlan

open Files (Grows Settled Suffix)

variable {ε α β : Type} {s s' : Site} {made opened : List Location}

/-! ### What is kept -/

namespace Store

/-- The catalog that is kept at a site, as it is read at a given time. -/
def kept (now : Clock) (s : Site) : Store → Except StoreError Catalog
  | memory => .ok s.memory
  | file path => load now s.files path

theorem snapshot_apply (st : Store) (s : Site) : st.snapshot s = Act.ofExcept (st.kept s.clock s) s := by
  cases st <;> rfl

theorem snapshot_ends (st : Store) {ok : Catalog → Site → Prop} {error : Site → Prop}
    (hok : ∀ c, st.kept s.clock s = .ok c → ok c s) (herror : error s) : st.snapshot.Ends s ok error := by
  unfold Act.Ends
  rw [snapshot_apply]
  exact Act.Ends.ofExcept hok fun _ _ => herror

/-- What is noted has no bearing on what is kept. -/
theorem kept_note (st : Store) (now : Clock) (s : Site) (e : Event) : st.kept now (s.note e) = st.kept now s := by
  cases st <;> rfl

theorem kept_release (st st' : Store) (now : Clock) (s : Site) : st.kept now (st'.release s) = st.kept now s := by
  cases st' with
  | memory => rfl
  | file path => exact st.kept_note now s _

@[simp] theorem release_files (st : Store) (s : Site) : (st.release s).files = s.files := by
  cases st <;> rfl

@[simp] theorem release_memory (st : Store) (s : Site) : (st.release s).memory = s.memory := by
  cases st <;> rfl

@[simp] theorem release_clock (st : Store) (s : Site) : (st.release s).clock = s.clock := by
  cases st <;> rfl

theorem load_congr {fs fs' : Files} {path : String} (h : fs'.read path = fs.read path) (now : Clock) :
    load now fs' path = load now fs path := by
  rw [load, load, h]

/-- The directories that are made for a store: those its file lies in. -/
def directories (fs : Files) : Store → List Location
  | memory => []
  | file path =>
    match Path.parent? path with
    | some parent => fs.way parent
    | none => []

/-- What is kept is settled: it does not depend on directories and empty files at the given places. -/
def Settled (s : Site) (made opened : List Location) : Store → Prop
  | memory => True
  | file path => s.files.Settled path made opened

end Store

/-- A site at which directories and empty files may have been added, and events noted. -/
structure Site.Grows (s s' : Site) (made opened : List Location) : Prop where
  files : s.files.Grows s'.files made opened
  memory : s'.memory = s.memory
  clock : s'.clock = s.clock

theorem Site.Grows.note {t : Site} (h : s.Grows t made opened) (e : Event) : s.Grows (t.note e) made opened :=
  ⟨h.files, h.memory, h.clock⟩

theorem Site.Grows.refl (s : Site) (made opened : List Location) : s.Grows s made opened :=
  ⟨.refl _ _ _, rfl, rfl⟩

namespace Store

variable {st : Store}

theorem kept_of_grows (h : s.Grows s' made opened) (hs : st.Settled s made opened) (now : Clock) :
    st.kept now s' = st.kept now s := by
  cases st with
  | memory => exact congrArg Except.ok h.memory
  | file path => exact load_congr (h.files.read_eq hs) now

end Store

namespace Act

theorem makeDirectories_ends {path : String} {t : Site} (h : t.Grows s made opened) (hway : s.files.way path ⊆ made) :
    (makeDirectories path).Ends s (fun _ s' => t.Grows s' made opened) fun s' => t.Grows s' made opened := by
  have hgrows := (s.files.makeDirectories_grows path).mono hway (List.nil_subset opened)
  refine .get ?_
  cases hmade : s.files.makeDirectories path with
  | ok fs =>
    rw [hmade] at hgrows
    exact ⟨h.files.trans hgrows, h.memory, h.clock⟩
  | error i =>
    rw [hmade] at hgrows
    exact ⟨h.files.trans hgrows, h.memory, h.clock⟩

theorem open_ends {path : String} {t : Site} (h : t.Grows s made opened) (hplace : s.files.place path ∈ opened) :
    (changeFiles (·.write path none)).Ends s (fun _ s' => t.Grows s' made opened) fun s' => t.Grows s' made opened := by
  refine changeFiles_ends h fun fs hfs => ?_
  have hgrows := (Files.open_grows hfs).mono (List.nil_subset made) (List.cons_subset.mpr ⟨hplace, List.nil_subset _⟩)
  exact ⟨h.files.trans hgrows, h.memory, h.clock⟩

end Act

namespace Store

variable {st : Store} {c : Catalog}

theorem suffix_lock : Suffix ".lock" :=
  ⟨by decide, by decide⟩

theorem suffix_temporary : Suffix ".tmp" :=
  ⟨by decide, by decide⟩

theorem changeFiles_ends {path suffix : String} {content? : Option String} {ok : Unit → Site → Prop} {error : Site → Prop}
    (hsuffix : Suffix suffix) (herror : error s) (hok : ∀ fs, s.files.write (path ++ suffix) content? = .ok fs →
      fs.read path = s.files.read path → ok () { s with files := fs }) :
    (changeFiles (path ++ suffix) (·.write (path ++ suffix) content?)).Ends s ok error :=
  .mapError (Act.changeFiles_ends herror fun fs hfs => hok fs hfs (Files.read_of_write_beside hsuffix hfs))

/-- No time has passed, and what is kept is the same. -/
structure Stays (st : Store) (s t : Site) : Prop where
  clock : t.clock = s.clock
  kept : ∀ now, st.kept now t = st.kept now s

theorem stays_of_grows (h : s.Grows s' made opened) (hs : st.Settled s made opened) : st.Stays s s' :=
  ⟨h.clock, kept_of_grows h hs⟩

theorem Stays.note (h : st.Stays s s') (e : Event) : st.Stays s (s'.note e) :=
  ⟨h.clock, fun now => (st.kept_note now s' e).trans (h.kept now)⟩

theorem Stays.release (h : st.Stays s s') : st.Stays s (st.release s') :=
  ⟨(st.release_clock s').trans h.clock, fun now => (st.kept_release st now s').trans (h.kept now)⟩

theorem Stays.snapshot_ends (h : st.Stays s s') :
    st.snapshot.Ends s' (fun c t => st.Stays s t ∧ st.kept s.clock s = .ok c) (st.Stays s) := by
  refine Store.snapshot_ends st (fun c hc => ⟨h, ?_⟩) h
  rw [← h.kept, ← h.clock]
  exact hc

/-- Directories may have been made before, and then the lock file. -/
theorem prepare_ends {path : String} (hs : (file path).Settled s made opened) (hown : (file path).directories s.files ⊆ made)
    (h : s.Grows s' made opened) : (prepare path).Ends s' (fun _ => (file path).Stays s) ((file path).Stays s) := by
  have hopen : ∀ t : Site, s.Grows t made opened →
      (changeFiles (lockPath path) (·.write (lockPath path) none)).Ends t (fun _ => (file path).Stays s) ((file path).Stays s) := by
    intro t ht
    have hstays := stays_of_grows ht hs
    exact changeFiles_ends suffix_lock hstays fun fs _ hread =>
      ⟨hstays.clock, fun now => (load_congr hread now).trans (hstays.kept now)⟩
  rw [Store.prepare]
  split
  · rename_i parent hparent
    split
    · have hway : s'.files.way parent ⊆ made := by
        rw [Files.way_congr h.files.working]
        rw [Store.directories, hparent] at hown
        exact hown
      have hmake := (Act.makeDirectories_ends h hway).mono (fun _ _ ht => ht) fun _ ht => stays_of_grows ht hs
      exact hmake.mapError.bind fun _ t ht => hopen t ht
    · exact hopen s' h
  · exact hopen s' h

/-- Opening a transaction gives the catalog that is kept, which stays as it is. -/
theorem begin_ends (hs : st.Settled s made opened) (hown : st.directories s.files ⊆ made) (h : s.Grows s' made opened) :
    st.begin.Ends s' (fun c t => st.Stays s t ∧ st.kept s.clock s = .ok c) (st.Stays s) := by
  cases st with
  | memory => exact (stays_of_grows h hs).snapshot_ends
  | file path =>
    refine (prepare_ends hs hown h).bind fun _ t ht => .get ?_
    have htake : (Act.take (token t.files path) (StoreError.io (lockPath path) .locked)).Ends t (fun _ => (file path).Stays s)
        ((file path).Stays s) := Act.take_ends (ht.note _) ht
    refine htake.bind fun _ u hu => .note_bind (.ifFails ?_)
    exact (hu.note _).snapshot_ends.mono (fun _ _ h => h) fun _ h => h.release

/-- A transaction on a file that can be locked, and that has a catalog to read. -/
theorem begin_file {path : String} {t : Site} (hprepare : prepare path s = .ok () t) (hfree : token t.files path ∉ t.held)
    (hload : load t.clock t.files path = .ok c) :
    (file path).begin s = .ok c ((t.note (.took (token t.files path))).note (.opened path)) := by
  rw [Store.begin, Act.bind_ok hprepare, Act.get_bind, Act.bind_ok (Act.take_free hfree), Act.bind_ok (Act.note_apply _ _)]
  refine Act.ifFails_ok ?_
  rw [snapshot_apply]
  exact congrArg (Act.ofExcept · _) hload

/-- What is published is kept, and what was kept stays if that fails. -/
theorem publish_ends (st : Store) (c : Catalog) (s : Site) :
    (st.publish c).Ends s (fun _ t => ∀ now, st.kept now t = .ok c) fun t => ∀ now, st.kept now t = st.kept now s := by
  cases st with
  | memory => exact fun now => rfl
  | file path =>
    have hwrite : (changeFiles (temporaryPath path) (·.write (temporaryPath path) (some c.text))).Ends s
        (fun _ t => s.files.write (temporaryPath path) (some c.text) = .ok t.files ∧ t.files.read path = s.files.read path)
        fun t => ∀ now, (file path).kept now t = (file path).kept now s :=
      changeFiles_ends suffix_temporary (fun _ => rfl) fun fs hfs hread => ⟨hfs, hread⟩
    refine hwrite.bind fun _ t ⟨ht, hread⟩ => ?_
    have hmove : (Store.changeFiles path (·.rename (temporaryPath path) path)).Ends t
        (fun _ u => u.files.read path = .ok c.text) fun u => ∀ now, (file path).kept now u = (file path).kept now s :=
      .mapError (Act.changeFiles_ends (load_congr hread) fun fs hfs => Files.read_of_rename ht hfs)
    refine hmove.bind fun _ u hu => Act.note_ends fun now => ?_
    show load now u.files path = _
    rw [load, hu]
    exact congrArg (Except.mapError _) (Catalog.ofText_text now.start .stream c)

theorem commit_ends (st : Store) (c : Catalog) (s : Site) :
    (st.commit c).Ends s (fun _ t => ∀ now, st.kept now t = .ok c) fun t => ∀ now, st.kept now t = st.kept now s := by
  refine (st.publish_ends c s).andFinally (fun _ t h now => ?_) fun t h now => ?_
  · exact (st.kept_release st now t).trans (h now)
  · exact (st.kept_release st now t).trans (h now)

/-- A transaction that is ended without a change leaves what is kept as it is. -/
theorem Stays.abandon {e : ε} {ok : α → Site → Prop} (h : st.Stays s s') : (st.abandon e).Ends s' ok (st.Stays s) :=
  h.release

end Store

end AddressPlan
