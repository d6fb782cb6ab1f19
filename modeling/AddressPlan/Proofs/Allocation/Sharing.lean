import AddressPlan.Proofs.Allocation.Exclusion
import AddressPlan.Proofs.Store.Steady

/-!
Allocations, as seen from the lock that they share. An allocation asks for its lock, works on the store, and gives the lock
back. Its work takes and gives back the lock on the catalog only and changes no other files than those of the catalog, so it
spares the locks of all others, as long as none of the lock files is used for the catalog as well.
-/

namespace AddressPlan

open Files (spares_write spares_rename hasFile_of_write)

variable {α : Type} {l : Lock} {key : LockKey} {s t u : Site} {c : Catalog}

/-! ### Work that spares a lock -/

namespace Lock.Spares

theorem note {e : Event} (h : l.Spares s t)
    (he : ∀ key held, l.token s.files key ∈ e.heldAfter held ↔ l.token s.files key ∈ held) : l.Spares s (t.note e) :=
  ⟨h.working, h.directories, h.locked, fun key => by rw [Site.held_note, he, h.held]⟩

theorem changed {fs : Files} {touched : List Location} (h : l.Spares s t) (hfiles : t.files.Spares fs touched)
    (hclear : ∀ key, ∀ x ∈ touched, l.token t.files key ≠ .file x) : l.Spares s { t with files := fs } := by
  refine h.trans ⟨hfiles.working, hfiles.directories, fun {key x e} hx _ hat => ?_, fun _ => Iff.rfl⟩
  exact hfiles.others (fun hmem => hclear key x hmem hx) hat

end Lock.Spares

namespace Store

variable {st : Store}

/-- The files that a commit changes. -/
def touched (fs : Files) : Store → List Location
  | memory => []
  | file path => [fs.place (temporaryPath path), fs.place path]

/-- None of the lock's files is that of the catalog, or one of those beside it. -/
def Clear (l : Lock) (fs : Files) (st : Store) : Prop :=
  ∀ key, ∀ x ∈ st.places fs ++ st.touched fs, l.token fs key ≠ .file x

theorem Clear.congr {fs fs' : Files} (h : st.Clear l fs) (hworking : fs'.working = fs.working) : st.Clear l fs' := by
  have htouched : st.touched fs' = st.touched fs := by
    cases st with
    | memory => rfl
    | file path => rw [touched, touched, Files.place_congr hworking, Files.place_congr hworking]
  intro key
  rw [l.token_congr hworking, places_congr hworking, htouched]
  exact h key

theorem Clear.place_ne {fs : Files} (h : st.Clear l fs) (key : LockKey) {x : Location} (hx : x ∈ st.touched fs) :
    l.token fs key ≠ .file x :=
  h key x (List.mem_append_right _ hx)

theorem Clear.token_ne {fs : Files} {path : String} (h : (file path).Clear l fs) (key : LockKey) : l.token fs key ≠ token fs path :=
  h key _ (List.mem_append_left _ List.mem_cons_self)

/-- Lock files in a directory of their own are clear of the catalog. -/
theorem clear_of_directory {fs : Files} {directory : String}
    (h : ∀ x ∈ st.places fs ++ st.touched fs, x.dropLast ≠ fs.place directory) : st.Clear (.files directory) fs := by
  intro key x hx htoken
  rw [Lock.token, Token.file.injEq, Lock.place_lockFile] at htoken
  refine h x hx ?_
  rw [← htoken, List.dropLast_concat]

theorem prepare_spares {path : String} : (prepare path).Ends s (fun _ => l.Spares s) (l.Spares s) := by
  have hprepare := (prepare_leavesLocks path).meets (prepare_meets (s := s) (List.Subset.refl _) (List.Subset.refl _))
  exact hprepare.mono (fun _ _ ⟨ht, hheld⟩ => .of_grows ht hheld) fun _ _ ⟨⟨_, ht⟩, hheld⟩ => .of_grows ht hheld

theorem release_spares (hclear : st.Clear l s.files) (h : l.Spares s t) : l.Spares s (st.release t) := by
  cases st with
  | memory => exact h
  | file path =>
    have htoken : token t.files path = token s.files path := by rw [token, token, Files.place_congr h.working]
    refine h.note fun key held => ?_
    show _ ∈ held.filter (· != token t.files path) ↔ _
    rw [htoken, List.mem_filter, bne_iff_ne, and_iff_left (hclear.token_ne key)]

theorem begin_spares (hclear : st.Clear l s.files) : st.begin.Ends s (fun _ => l.Spares s) (l.Spares s) := by
  cases st with
  | memory => exact .refl l s
  | file path =>
    refine prepare_spares.bind fun _ t ht => .get ?_
    have htoken : token t.files path = token s.files path := by rw [token, token, Files.place_congr ht.working]
    have htook : l.Spares s (t.note (.took (token t.files path))) := by
      refine ht.note fun key held => ?_
      show _ ∈ token t.files path :: held ↔ _
      rw [htoken, List.mem_cons, or_iff_right (hclear.token_ne key)]
    have htake : (Act.take (token t.files path) (StoreError.io (lockPath path) .locked)).Ends t (fun _ => l.Spares s)
        (l.Spares s) := Act.take_ends htook ht
    refine htake.bind fun _ u hu => .note_bind (.ifFails ?_)
    have hopened : l.Spares s (u.note (.opened path)) := hu.note fun _ _ => Iff.rfl
    exact snapshot_ends (file path) (fun _ _ => hopened) (release_spares hclear hopened)

theorem publish_spares (hclear : st.Clear l s.files) (h : l.Spares s t) : (st.publish c).Ends t (fun _ => l.Spares s) (l.Spares s) := by
  cases st with
  | memory => exact ⟨h.working, h.directories, h.locked, h.held⟩
  | file path =>
    have hwrite : (changeFiles (temporaryPath path) (·.write (temporaryPath path) (some c.text))).Ends t
        (fun _ u => l.Spares s u ∧ u.files.HasFile (temporaryPath path)) (l.Spares s) := by
      refine .mapError (Act.changeFiles_ends h fun fs hfs => ⟨h.changed (spares_write hfs) fun key x hx => ?_, hasFile_of_write hfs⟩)
      rw [List.mem_singleton] at hx
      exact (hclear.congr h.working).place_ne key (hx ▸ List.mem_cons_self)
    refine hwrite.bind fun _ u ⟨hu, hfile⟩ => ?_
    have hmove : (changeFiles path (·.rename (temporaryPath path) path)).Ends u (fun _ => l.Spares s) (l.Spares s) :=
      .mapError (Act.changeFiles_ends hu fun fs hfs =>
        hu.changed (spares_rename hfs hfile) fun key _ hx => (hclear.congr hu.working).place_ne key hx)
    exact hmove.bind fun _ v hv => Act.note_ends (hv.note fun _ _ => Iff.rfl)

theorem commit_spares (hclear : st.Clear l s.files) (h : l.Spares s t) : (st.commit c).Ends t (fun _ => l.Spares s) (l.Spares s) :=
  (publish_spares hclear h).andFinally (fun _ _ hu => release_spares hclear hu) fun _ hu => release_spares hclear hu

theorem seed_spares (hclear : st.Clear l s.files) (records : Catalog) : (st.seed records).Ends s (fun _ => l.Spares s) (l.Spares s) := by
  refine (begin_spares hclear).bind fun c t ht => ?_
  cases c.merge records with
  | error e => exact release_spares hclear ht
  | ok merged => exact commit_spares hclear ht

end Store

/-! ### Allocations -/

variable {a : Allocator} {mode : Mode} {parent : Parent} {batch : Clock → Catalog → Except Refusal (Allocated α)}
  {done : Allocated α → Event}

namespace Allocator

theorem session_spares (hdone : ∀ r held, (done r).heldAfter held = held) (hclear : a.store.Clear a.lock s.files) :
    (a.session batch done).Ends s (fun _ => a.lock.Spares s) (a.lock.Spares s) := by
  refine (Store.begin_spares hclear).mapError.bind fun c t ht => .get ?_
  cases batch t.clock c with
  | error why => exact .note_bind (Store.release_spares hclear (ht.note fun _ _ => Iff.rfl))
  | ok r =>
    refine (Store.commit_spares hclear ht).mapError.bind fun _ u hu => .note_bind (.pure (hu.note fun key held => ?_))
    rw [hdone]

/-- What is done under the lock does not fail because of the lock. -/
theorem session_fails : (a.session batch done).Fails s fun e => ∀ why, e ≠ .lock why := by
  refine Act.Fails.bind (.mapError fun _ _ _ => AllocationError.noConfusion) fun c t => .get ?_
  cases batch t.clock c with
  | error why => exact .bind .note fun _ _ => .bind .modify fun _ _ => .throw fun _ => AllocationError.noConfusion
  | ok r => exact .bind (.mapError fun _ _ _ => AllocationError.noConfusion) fun _ _ => .bind .note fun _ _ => .pure

end Allocator

namespace Lock

/-- The turns of one allocation: it asks, and what it has got it gives back, unless it waits for the catalog. -/
inductive Turns (key : LockKey) : Except AllocationError α → List Turn → Prop
  | unlocked (e : LockError) : Turns key (.error (.lock e)) [.asked key (.error e)]
  | waiting {e : AllocationError} (hwaits : e.waits = true) : Turns key (.error e) [.asked key (.ok ())]
  | ended (outcome : Except AllocationError α) : Turns key outcome [.asked key (.ok ()), .gaveBack key]

/-- To the lock, the action is an allocation: it waits for the lock exactly if it is held for its key, and it takes its turns. -/
def Sees (l : Lock) (key : LockKey) (act : Act AllocationError α) (s : Site) : Prop :=
  (act.outcome s = .error (.lock (.taken key)) ↔ l.token s.files key ∈ s.held) ∧
    ∃ log, Turns key (act.outcome s) log ∧ l.Run s log (act.after s)

end Lock

namespace Allocator

theorem transact_sees {keys : List LockKey} (hdone : ∀ r held, (done r).heldAfter held = held)
    (hheld : a.lock.HeldFor keys s) (hclear : a.store.Clear a.lock s.files) :
    a.lock.Sees (.of mode parent a.lockScope) (a.transact mode parent batch done) s := by
  rw [transact_eq]
  generalize LockKey.of mode parent a.lockScope = key
  obtain ⟨htaken, hafter⟩ := hheld.acquire key
  have hgrows := a.lock.acquire_ends key s (List.Subset.refl _) (List.Subset.refl _)
  unfold Act.Ends at hgrows
  cases hacquire : a.lock.acquire key s with
  | error e t =>
    have hact : a.lock.hold key (a.session batch done) s = .error (.lock e) t := Act.bind_error (Act.mapError_error hacquire)
    rw [Act.outcome_of_error hacquire] at htaken
    rw [Lock.Sees, Act.outcome_of_error hact, Act.after_of_error hact, hheld.held]
    refine ⟨?_, _, .unlocked e, .ask (Act.outcome_of_error hacquire) ?_⟩
    · simpa using htaken key
    · rw [Act.after_of_error hacquire]
      exact .done t
  | ok _ t =>
    rw [hacquire] at hgrows
    rw [Act.outcome_of_ok hacquire] at htaken
    rw [Act.outcome_of_ok hacquire, Act.after_of_ok hacquire, if_pos rfl] at hafter
    have hact : a.lock.hold key (a.session batch done) s =
        (a.session batch done).andFinally AllocationError.waits (a.lock.release key) t := Act.bind_ok (Act.mapError_ok hacquire)
    have hspares : (a.session batch done).Ends t _ _ := session_spares hdone (hclear.congr hgrows.files.working)
    have hfails : (a.session batch done).Fails t _ := session_fails
    have hnot : a.lock.token s.files key ∉ s.held := fun h => nomatch (htaken key).mpr ⟨rfl, (hheld.held key).mp h⟩
    -- Whatever is done under the lock, it is still held for the key afterwards.
    have hstill : ∀ {u}, a.lock.Spares t u → a.lock.token u.files key ∈ u.held := fun hu =>
      ((hafter.spares hu).held key).mpr List.mem_cons_self
    have hasks : ∀ {log u}, a.lock.Run t log u → a.lock.Run s (.asked key (.ok ()) :: log) u := fun hrun =>
      .ask (Act.outcome_of_ok hacquire) (by rwa [Act.after_of_ok hacquire])
    unfold Act.Ends at hspares
    split at hspares
    · rename_i r u hsession
      have hdone := hact.trans (Act.andFinally_ok hsession)
      rw [Lock.Sees, Act.outcome_of_ok hdone, Act.after_of_ok hdone]
      exact ⟨iff_of_false nofun hnot, _, .ended _, hasks (.work hspares (.giveBack (hstill hspares) (.done _)))⟩
    · rename_i e u hsession
      have hends := hact.trans (Act.andFinally_error hsession)
      rw [Lock.Sees, Act.outcome_of_error hends, Act.after_of_error hends]
      refine ⟨iff_of_false (fun heq => hfails e (Act.error?_error hsession) _ (Except.error.inj heq)) hnot, ?_⟩
      by_cases hwaits : e.waits = true
      · rw [if_pos hwaits]
        exact ⟨_, .waiting hwaits, hasks (.work hspares (.done u))⟩
      · rw [if_neg hwaits]
        exact ⟨_, .ended _, hasks (.work hspares (.giveBack (hstill hspares) (.done _)))⟩

end Allocator

namespace Lock

open Allocator

/-- The names of lock files tell the keys apart, and so do the files in a directory. Whether a lock is kept in the process or
in files, an allocation waits exactly while its key is held, so the same pairs exclude each other: what is seen at a lock in
files, leaving out those whose file cannot be opened, could be seen at one in the process. To such a lock each allocation of an
allocator is one that asks for it, works, and gives it back; and seeds do not matter. -/
theorem files_separate_keys :
    (∀ k k' : LockKey, k.fileName = k'.fileName ↔ k = k') ∧
    (∀ (directory : String) (fs : Files) (k k' : LockKey),
      fs.place (Path.join directory k.fileName) = fs.place (Path.join directory k'.fileName) ↔ k = k') ∧
    (∀ (m m' : Mode) (p p' : Parent),
      ((LockKey.of m p .global).fileName = (LockKey.of m' p' .global).fileName ↔ m = m') ∧
      ((LockKey.of m p .parent).fileName = (LockKey.of m' p' .parent).fileName ↔ m = m' ∧ p.kind = p'.kind ∧ p.id = p'.id) ∧
      (LockKey.of m p .global).fileName ≠ (LockKey.of m' p' .parent).fileName) ∧
    (∀ (l : Lock) (s : Site) (log : List Turn) (u : Site), l.Idle s → l.Run s log u → Exclusive [] log ∧
      ∀ k k', (∀ key, l.token u.files key ∈ u.held ↔ key = k) → ((l.acquire k').outcome u = .error (.taken k') ↔ k = k')) ∧
    (∀ (directory : String) (s : Site) (log : List Turn) (u s' : Site), (files directory).Idle s → (files directory).Run s log u →
      inProcess.Idle s' → ∃ v, inProcess.Run s' (log.filter Turn.served) v) ∧
    ∀ (a : Allocator) (s : Site) (log : List Turn) (u : Site), a.lock.Idle s → a.lock.Run s log u → a.store.Clear a.lock u.files →
      (∀ id requests, a.lock.Sees (.of .prefixes (.prefixRecord id) a.lockScope) (a.allocatePrefixes id requests) u) ∧
      (∀ parent requests, a.lock.Sees (.of .addresses parent a.lockScope) (a.allocateAddresses parent requests) u) ∧
      ∀ records, a.lock.Spares u ((a.store.seed records).after u) := by
  refine ⟨fun _ _ => LockKey.fileName_inj, fun directory fs k k' => ?_, fun m m' p p' => ⟨?_, ?_, ?_⟩, fun l s log u hidle hrun => ?_,
    fun directory s log u s' hidle hrun hidle' => ?_, fun a s log u hidle hrun hclear => ?_⟩
  · rw [place_lockFile, place_lockFile, List.append_cancel_left_eq, List.singleton_inj, LockKey.fileName_inj]
  · rw [LockKey.fileName_inj, LockKey.of_global_inj]
  · rw [LockKey.fileName_inj, LockKey.of_parent_inj]
  · rw [Ne, LockKey.fileName_inj]
    exact LockKey.of_global_ne_of_parent m m' p p'
  · obtain ⟨hlog, keys, h⟩ := hrun.exclusive hidle.heldFor
    refine ⟨hlog, fun k k' hheld => ?_⟩
    rw [(h.acquire k').1, ← h.held, hheld, and_iff_right rfl, eq_comm]
  · obtain ⟨hlog, -⟩ := hrun.exclusive hidle.heldFor
    exact run_inProcess hlog.served (fun turn hturn => (List.mem_filter.mp hturn).2) hidle'.heldFor
  · obtain ⟨-, keys, h⟩ := hrun.exclusive hidle.heldFor
    exact ⟨fun id requests => transact_sees (fun _ _ => rfl) h hclear, fun parent requests => transact_sees (fun _ _ => rfl) h hclear,
      fun records => (Store.seed_spares hclear records).after⟩

/-- A directory of lock files, with a directory in the place of one of them. -/
def crowded : Site :=
  ⟨⟨[(["locks"], .directory), (["locks", "ipam-100300.lock"], .directory)], []⟩, .empty, Catalog.epoch, []⟩

/-- One allocation waits for another one, a third one asks for a file that cannot be opened, and a fourth one has a lock of
its own, which it still holds at the end. -/
def crowdedLog : List Turn :=
  [.asked (.of .prefixes (.prefixRecord 7) .global) (.ok ()),
    .asked (.of .prefixes (.prefixRecord 8) .global) (.error (.taken (.global .prefixes))),
    .asked (.of .addresses (.rangeRecord 3) .global) (.error (.file "locks/ipam-100300.lock" .isDirectory)),
    .asked (.of .addresses (.rangeRecord 3) .parent) (.ok ()), .gaveBack (.of .prefixes (.prefixRecord 7) .global)]

def crowdedEnd : Site :=
  (files "locks").release (.global .prefixes) ⟨⟨[(["locks"], .directory), (["locks", "ipam-100300.lock"], .directory),
    (["locks", "ipam-100100.lock"], .text ""), (["locks", "ipam-100300-iprange-3.lock"], .text "")], []⟩, .empty, Catalog.epoch,
    [.took (.file ["locks", "ipam-100100.lock"]), .took (.file ["locks", "ipam-100300-iprange-3.lock"])]⟩

theorem crowded_run : (files "locks").Run crowded crowdedLog crowdedEnd :=
  .ask rfl (.ask rfl (.ask rfl (.ask rfl (.giveBack (by decide +kernel) (.done _)))))

/-- An allocator for the catalog beside that directory. -/
def amongOthers : Allocator :=
  ⟨.file "ipam.json", .files "locks", .parent, []⟩

theorem clear_amongOthers : amongOthers.store.Clear amongOthers.lock crowdedEnd.files :=
  Store.clear_of_directory (by decide +kernel)

theorem files_separate_keys_crowded :
    (files "locks").Idle crowded ∧ (files "locks").Run crowded crowdedLog crowdedEnd ∧ Exclusive [] crowdedLog ∧
    (∀ key, (files "locks").token crowdedEnd.files key ∈ crowdedEnd.held ↔ key = .of .addresses (.rangeRecord 3) .parent) ∧
    ((files "locks").acquire (.of .addresses (.rangeRecord 3) .parent)).outcome crowdedEnd =
      .error (.taken (.of .addresses (.rangeRecord 3) .parent)) ∧
    ((files "locks").acquire (.of .addresses (.prefixRecord 3) .parent)).outcome crowdedEnd ≠
      .error (.taken (.of .addresses (.prefixRecord 3) .parent)) ∧
    inProcess.Idle crowded ∧ (∃ v, inProcess.Run crowded (crowdedLog.filter Turn.served) v) ∧
    amongOthers.store.Clear amongOthers.lock crowdedEnd.files ∧
    amongOthers.lock.Sees (.of .addresses (.rangeRecord 3) .parent) (amongOthers.allocateAddresses (.rangeRecord 3) []) crowdedEnd := by
  have hidle : ∀ l : Lock, l.Idle crowded := fun _ _ => List.not_mem_nil
  have hheld : crowdedEnd.held = [.file ["locks", "ipam-100300-iprange-3.lock"]] := by decide +kernel
  have hone : ∀ key, (files "locks").token crowdedEnd.files key ∈ crowdedEnd.held ↔ key = .of .addresses (.rangeRecord 3) .parent := by
    intro key
    rw [hheld, List.mem_singleton]
    exact ((files "locks").token_injective crowdedEnd.files).eq_iff (b := .of .addresses (.rangeRecord 3) .parent)
  obtain ⟨-, -, -, hlock, hfiles, hsees⟩ := files_separate_keys
  obtain ⟨hlog, hpairs⟩ := hlock _ _ _ _ (hidle _) crowded_run
  exact ⟨hidle _, crowded_run, hlog, hone, (hpairs _ _ hone).mpr rfl, mt (hpairs _ _ hone).mp (by decide), hidle _,
    hfiles _ _ _ _ _ (hidle _) crowded_run (hidle _), clear_amongOthers,
    (hsees amongOthers _ _ _ (hidle _) crowded_run clear_amongOthers).2.1 _ _⟩

end Lock

end AddressPlan
