import AddressPlan.Proofs.Allocation.Batch
import AddressPlan.Proofs.Allocation.Opened
import AddressPlan.Proofs.Store.Document

/-!
All or nothing: a batch that is refused, or that fails on the way to the store or back, leaves the catalog as it was, and
one that succeeds adds the records it returns and nothing else. Seed records are merged as a whole or not at all.

A file is read anew each time, so this rests on what its path leads to. Directories and lock files are made before the
catalog is read; where these cannot change what is read from the path, nothing else can.
-/

namespace AddressPlan

open Net

variable {ε α : Type} {s s' : Site} {made opened : List Location}

/-- All of the change that an action makes to a catalog is kept, or the catalog is kept as it was. -/
def Store.Atomic (st : Store) (s : Site) (act : Act ε α) (change : Catalog → α → Catalog → Prop) : Prop :=
  act.Ends s (fun a t => ∃ c c', st.kept s.clock s = .ok c ∧ change c a c' ∧ ∀ now, st.kept now t = .ok c')
    fun t => ∀ now, st.kept now t = st.kept now s

namespace Store.Atomic

variable {st : Store} {act : Act ε α} {change : Catalog → α → Catalog → Prop} {c : Catalog} {x : α} {e : ε}

end Store.Atomic

/-! ### Locks -/

/-- The reason is that a file could not be used. -/
def LockError.isIo : LockError → Bool
  | .file .. => true
  | .taken _ => false

namespace Lock

/-- The directories that are made for a lock. -/
def directories (fs : Files) : Lock → List Location
  | inProcess => []
  | files directory => fs.way directory

/-- The file that is opened for a lock. -/
def places (fs : Files) (key : LockKey) : Lock → List Location
  | inProcess => []
  | files directory => [fs.place (Path.join directory key.fileName)]

theorem prepare_ends (l : Lock) (key : LockKey) (s : Site) (hmade : l.directories s.files ⊆ made) (hopened : l.places s.files key ⊆ opened) :
    (l.prepare key).Ends s (fun _ t => s.Grows t made opened) fun t => s.Grows t made opened := by
  cases l with
  | inProcess => exact .refl s made opened
  | files directory =>
    refine .bind (.mapError (Act.makeDirectories_ends (.refl s made opened) hmade)) fun _ t ht => ?_
    refine .mapError (Act.open_ends ht ?_)
    rw [Files.place_congr ht.files.working]
    exact hopened List.mem_cons_self

theorem prepare_leavesLocks (l : Lock) (key : LockKey) : (l.prepare key).LeavesLocks := by
  cases l with
  | inProcess => exact .pure
  | files directory => exact (Act.LeavesLocks.makeDirectories _).mapError.bind fun _ => (Act.LeavesLocks.changeFiles _).mapError

/-- What fails when a lock is prepared is the use of a file. -/
theorem prepare_isIo (l : Lock) (key : LockKey) (s : Site) : (l.prepare key).Meets s (fun _ _ => True) fun e _ => e.isIo = true := by
  have himply : ∀ {ε : Type} (act : Act ε Unit) (s : Site), act.Meets s (fun _ _ => True) fun _ _ => True := fun act s => by
    unfold Act.Meets
    split <;> trivial
  cases l with
  | inProcess => trivial
  | files directory =>
    refine .bind (.mapError ((himply (Act.makeDirectories directory) s).mono_error fun _ _ _ => rfl)) fun _ t _ => ?_
    exact .mapError ((himply _ t).mono_error fun _ _ _ => rfl)

theorem token_congr {fs fs' : Files} (l : Lock) (h : fs'.working = fs.working) (key : LockKey) : l.token fs' key = l.token fs key := by
  cases l with
  | inProcess => rfl
  | files directory => rw [token, token, Files.place_congr h]

theorem acquire_ends (l : Lock) (key : LockKey) (s : Site) (hmade : l.directories s.files ⊆ made) (hopened : l.places s.files key ⊆ opened) :
    (l.acquire key).Ends s (fun _ t => s.Grows t made opened) fun t => s.Grows t made opened :=
  (l.prepare_ends key s hmade hopened).bind fun _ _ ht => .get (Act.take_ends (ht.note _) ht)

end Lock

namespace Allocator

variable {a : Allocator} {mode : Mode} {parent : Parent}

/-! ### All or nothing -/

/-- What the store keeps does not depend on what has to be made for an allocation. -/
def Settled (a : Allocator) (s : Site) (key : LockKey) : Prop :=
  a.store.Settled s (a.lock.directories s.files ++ a.store.directories s.files) (a.lock.places s.files key)

theorem transact_atomic {batch : Clock → Catalog → Except Refusal (Allocated α)} {done : Allocated α → Event}
    (hs : a.Settled s (.of mode parent a.lockScope)) :
    a.store.Atomic s (a.transact mode parent batch done) fun c r c' => batch s.clock c = .ok r ∧ c' = r.catalog := by
  have hlock := a.lock.acquire_ends (.of mode parent a.lockScope) s (List.subset_append_left _ (a.store.directories s.files))
    (List.Subset.refl _)
  have hstays := hlock.mono (fun _ _ ht => ht) fun _ ht => (Store.stays_of_grows ht hs).kept
  have hrelease : ∀ now v, a.store.kept now (a.lock.release (.of mode parent a.lockScope) v) = a.store.kept now v :=
    a.lock.kept_release _ a.store
  refine hstays.mapError.bind fun _ t ht => .andFinally ?_
    (fun _ v ⟨c, c', hc, hr, hv⟩ => ⟨c, c', hc, hr, fun now => (hrelease now v).trans (hv now)⟩)
    fun v hv now => (hrelease now v).trans (hv now)
  have hbegin := (Store.begin_ends hs (List.subset_append_right _ _) ht).mono (fun _ _ hu => hu) fun _ hu => hu.kept
  refine hbegin.mapError.bind fun c u ⟨hu, hc⟩ => .get ?_
  rw [hu.clock]
  split
  · exact .note_bind ((hu.note _).abandon.mono (fun _ _ hv => hv) fun _ hv => hv.kept)
  · rename_i r hr
    have hcommit := (a.store.commit_ends r.catalog u).mono (fun _ _ hv => hv) fun _ hv now => (hv now).trans (hu.kept now)
    exact hcommit.mapError.bind fun _ v hv => ⟨c, r.catalog, hc, ⟨hr, rfl⟩, hv⟩

/-- An allocation that fails has changed nothing, if its store does not depend on what has to be made. -/
theorem transact_unchanged (hs : a.Settled s (.of mode parent a.lockScope)) : (a.transact mode parent batch done).Meets s
    (fun _ _ => True) fun _ t => ∀ now, a.store.kept now t = a.store.kept now s :=
  (transact_atomic hs).meets.mono (fun _ _ _ => trivial) fun _ _ h => h

/-- The catalog on which a transaction is opened is the one that is kept, if the store does not depend on what has to be made. -/
theorem opensAt_kept {key : LockKey} (hs : a.Settled s key) (h : a.OpensAt s key c u) :
    a.store.kept s.clock s = .ok c ∧ u.clock = s.clock := by
  obtain ⟨t, hlock, hbegin⟩ := h
  have hgrows := a.lock.acquire_ends key s (List.subset_append_left _ (a.store.directories s.files)) (List.Subset.refl _)
  rw [Act.Ends, hlock] at hgrows
  have hends := Store.begin_ends hs (List.subset_append_right _ _) hgrows
  rw [Act.Ends, hbegin] at hends
  exact ⟨hends.2, hends.1.clock⟩

theorem seed_atomic {st : Store} (records : Catalog) (hs : st.Settled s (st.directories s.files) []) :
    st.Atomic s (st.seed records) fun c _ c' => c.merge records = .ok c' := by
  have hbegin := (Store.begin_ends hs (List.Subset.refl _) (.refl s _ _)).mono (fun _ _ hu => hu) fun _ hu => hu.kept
  refine hbegin.bind fun c u ⟨hu, hc⟩ => ?_
  split
  · exact hu.abandon.mono (fun _ _ hv => hv) fun _ hv => hv.kept
  · rename_i m hm
    exact (st.commit_ends m u).mono (fun _ _ hw => ⟨c, m, hc, hm, hw⟩) fun _ hw now => (hw now).trans (hu.kept now)

def bare : Site :=
  ⟨⟨[], []⟩, .empty, Catalog.epoch, []⟩

/-- An allocator that keeps its catalog and its locks in directories of their own. -/
def inFiles : Allocator :=
  ⟨.file "data/ipam.json", .files "locks", .parent, []⟩

theorem settled_bare (hmade : ["data", "ipam.json"] ∉ made) (hopened : ∀ l ∈ opened, l ∉ bare.files.way "data/ipam.json") :
    inFiles.store.Settled bare made opened := by
  refine Or.inr (Or.inr ⟨by decide +kernel, fun l _ t hat => ?_, by decide +kernel, hmade, hopened⟩)
  unfold Files.at? at hat
  split at hat <;> cases hat

/-! ### A catalog in the working directory -/

/-- An allocator that keeps its catalog in the working directory. -/
def nearby (validators : List Validator) : Allocator :=
  ⟨.file "ipam.json", .inProcess, .global, validators⟩

/-- A site with a catalog in the working directory. -/
def stocked (text : String) : Site :=
  ⟨⟨[(["ipam.json"], .text text)], []⟩, .empty, Catalog.epoch, []⟩

/-- The site with further events, while a transaction is open on its catalog. -/
def openedNearby (text : String) (events : List Event) : Site :=
  let locked : Site := ⟨⟨[(["ipam.json"], .text text), (["ipam.json.lock"], .text "")], []⟩, .empty, Catalog.epoch, events⟩
  (locked.note (.took (.file ["ipam.json.lock"]))).note (.opened "ipam.json")

variable {validators : List Validator} {events : List Event}

theorem begin_nearby (c : Catalog) (hfree : .file ["ipam.json.lock"] ∉ events.foldl Event.heldAfter []) :
    (nearby validators).store.begin { stocked c.text with events := events } = .ok c (openedNearby c.text events) :=
  Store.begin_file (t := ⟨⟨[(["ipam.json"], .text c.text), (["ipam.json.lock"], .text "")], []⟩, .empty, Catalog.epoch, events⟩)
    rfl hfree (Store.load_of_text rfl _)

theorem commit_nearby (c : Catalog) (text : String) :
    ((nearby validators).store.commit c).outcome (openedNearby text events) = .ok () := rfl

theorem opensAt_nearby (c : Catalog) (key : LockKey) :
    (nearby validators).OpensAt (stocked c.text) key c (openedNearby c.text [.took (.key key)]) :=
  ⟨_, Lock.acquire_inProcess List.not_mem_nil, begin_nearby c (by simp [stocked, Event.heldAfter])⟩

theorem transact_nearby {batch : Clock → Catalog → Except Refusal (Allocated α)} (done : Allocated α → Event)
    (h : batch Catalog.epoch c = .ok r) :
    ((nearby validators).transact mode parent batch done).outcome (stocked c.text) = .ok r :=
  (transact_accepted batch done (opensAt_nearby c _) h).1 (commit_nearby r.catalog c.text)

theorem kept_nearby (c : Catalog) (now : Clock) : (nearby validators).store.kept now (stocked c.text) = .ok c := by
  have hread : (stocked c.text).files.read "ipam.json" = .ok c.text := rfl
  exact Store.load_of_text hread now

theorem settled_nearby (c : Catalog) (made opened : List Location) :
    (nearby validators).store.Settled (stocked c.text) made opened :=
  Or.inl (by
    have hread : (stocked c.text).files.read "ipam.json" = .ok c.text := rfl
    rw [hread]
    exact nofun)

/-- The files after the gap has been filled on the way to the catalog and its lock file. -/
def filled (text : String) : Files :=
  ⟨[(["ipam.json"], .text text), (["a"], .directory), (["ipam.json.lock"], .text "")], []⟩

/-- An allocator whose path to the catalog leads through a directory that is not there. -/
def throughGap : Allocator :=
  ⟨.file "a/../ipam.json", .inProcess, .global, []⟩

/-- The site while the transaction is open, with the lock of the batch and that on the catalog. -/
def openedGap (text : String) : Site :=
  ⟨filled text, .empty, Catalog.epoch,
    [.took (.key (.global .prefixes)), .took (Store.token (filled text) "a/../ipam.json"), .opened "a/../ipam.json"]⟩

theorem read_filled (text : String) : (filled text).read "a/../ipam.json" = .ok text := rfl

theorem kept_stocked (now : Clock) (text : String) : throughGap.store.kept now (stocked text) = .ok .empty := rfl

/-- Any allocator that goes that way opens its transaction on a catalog that it was not read to hold before. -/
theorem opensAt_acrossGap {a : Allocator} {text : String} (hstore : a.store = throughGap.store) (hlock : a.lock = throughGap.lock)
    (h : Store.load Catalog.epoch (filled text) "a/../ipam.json" = .ok c) :
    a.OpensAt (stocked text) (.global .prefixes) c (openedGap text) := by
  have hfirst : throughGap.lock.acquire (.global .prefixes) (stocked text) =
      .ok () ((stocked text).note (.took (.key (.global .prefixes)))) := Lock.acquire_inProcess List.not_mem_nil
  have hprepare : Store.prepare "a/../ipam.json" ((stocked text).note (.took (.key (.global .prefixes)))) =
      .ok () ⟨filled text, .empty, Catalog.epoch, [.took (.key (.global .prefixes))]⟩ := rfl
  have hbegin : throughGap.store.begin ((stocked text).note (.took (.key (.global .prefixes)))) = .ok c (openedGap text) :=
    Store.begin_file hprepare (by simp [Site.held, Event.heldAfter, Store.token]) h
  exact ⟨_, hlock ▸ hfirst, hstore ▸ hbegin⟩

theorem allocate_throughGap {text : String} (h : Store.load Catalog.epoch (filled text) "a/../ipam.json" = .ok Catalog.nested) :
    throughGap.allocatePrefixes 3 [] (stocked text) = .error (.refused (.catalog (.notFound .prefixRecord 3)))
      (throughGap.lock.release (.global .prefixes) (throughGap.store.release
        ((openedGap text).note (.refused (.catalog (.notFound .prefixRecord 3)))))) := by
  have hopen : throughGap.OpensAt (stocked text) (.of .prefixes (.prefixRecord 3) throughGap.lockScope) .nested (openedGap text) :=
    opensAt_acrossGap rfl rfl h
  exact transact_opened hopen

theorem load_filled (c : Catalog) : Store.load Catalog.epoch (filled c.text) "a/../ipam.json" = .ok c := by
  rw [Store.load, read_filled]
  exact congrArg (Except.mapError _) (Catalog.ofText_text Catalog.epoch .stream c)

end Allocator

end AddressPlan
